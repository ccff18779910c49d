import UnixProgramming.ProcessServer.Handover
import Mathlib.Data.Int.Range

/-! With the descriptor numbers that the kernel gives out, the lowest ones that are closed:
the parent closes descriptor 0 in place of its first connection, and from then on 0 is the
number of every connection. -/

namespace UnixProgramming.ProcessServer

open Library Library.Transition

variable {s s' : State} {q q' : Proc} {p : ℕ} {fd : ℤ} {listenfd : ℤ} {inherited : Finset ℤ}

def TakesLowest (s : State) : Label → Prop
  | .act p (.accept ret _) => ∀ q ∈ s.procs p, ∀ fd, 0 ≤ fd → fd < ret → q.fds.file fd ≠ none
  | _ => True

instance (s : State) : ∀ l, Decidable (TakesLowest s l)
  | .act p (.accept ret _) => inferInstanceAs (Decidable
      (∀ q ∈ s.procs p, ∀ fd, 0 ≤ fd → fd < ret → q.fds.file fd ≠ none))
  | .fork _ | .act _ .statement | .act _ .forkFails | .act _ (.read _) | .act _ .write
  | .act _ .sigpipe | .act _ (.recycle _) => isTrue trivial

/-- The rounds that begin with descriptor 0 closed hand over the connection that they have
accepted, and every round of the server after its first one is such a round. -/
structure LaterServed (s : State) : Prop where
  handed : ∀ p q fd, s.procs p = some q → q.before 0 = none → q.accepted = some fd →
    q.pc = .fork ∨ q.pc = .read ∨ q.pc = .respond →
    q.communicatefd = fd ∧ ∃ n, q.fds.file fd = some (.connection n)
  later : ∀ q, s.procs 0 = some q → 0 < q.pid → q.pc = .accept ∨ q.pc = .fork →
    q.before 0 = none
  leaked : ∀ q fd n, s.procs 0 = some q → q.pc = .top → q.fds.file fd = some (.connection n) →
    n = 0

def Held (q : Proc) (fd : ℤ) : Prop :=
  fd ≠ q.listenfd ∧ (∃ n, q.fds.file fd = some (.connection n)) ∧ (q.before 0 = none → fd = 0)

def Placed (q : Proc) : Prop :=
  match q.pc with
  | .accept => q.accepted = none ∧ q.fds.file = q.before
  | .test ret => ret = -1 ∧ q.accepted = none ∧ q.fds.file = q.before ∨
    ret ≠ -1 ∧ q.accepted = some ret ∧ Held q ret
  | .fork | .dispatch | .closeListen | .read | .respond =>
    q.communicatefd = 0 ∧ ∀ fd, q.accepted = some fd → Held q fd
  | .top | .closeCommunicate | .closeParent | .exited => True

/-- No connection but the first one is open, unless as descriptor 0. -/
def OnlyFirst (q : Proc) : Prop :=
  ∀ fd n, fd ≠ 0 → q.fds.file fd = some (.connection n) → n = 0

def Fresh (q : Proc) : Prop :=
  (∀ fd n, q.fds.file fd = some (.connection n) → n = 0) ∧
    (q.pid = 0 ∧ q.fds.accepted = 0 ∨ 0 < q.pid ∧ q.fds.file 0 = none)

def Tended (q : Proc) : Prop :=
  match q.pc with
  | .top | .accept => Fresh q
  | .test ret => ret = -1 ∧ Fresh q ∨
    ret ≠ -1 ∧ OnlyFirst q ∧ 0 ≤ q.pid ∧ (0 < q.pid → q.before 0 = none)
  | .fork => OnlyFirst q ∧ 0 ≤ q.pid ∧ (0 < q.pid → q.before 0 = none)
  | .dispatch | .closeParent => 0 < q.pid ∧ OnlyFirst q ∧ q.communicatefd = 0
  | .closeListen | .read | .respond | .closeCommunicate => False
  | .exited => True

lemma Fresh.onlyFirst (h : Fresh q) : OnlyFirst q ∧ 0 ≤ q.pid := by
  refine ⟨fun fd n _ => h.1 fd n, ?_⟩
  rcases h.2 with ⟨h₀, -⟩ | ⟨h₀, -⟩
  · exact h₀.ge
  · exact h₀.le

lemma statementStep_placed (h : Placed q) (he : statementStep q = some q') : Placed q' := by
  cases hpc : q.pc with
  | top =>
    simp only [statementStep, hpc, Option.some.injEq] at he
    subst he
    exact ⟨rfl, rfl⟩
  | test ret =>
    simp only [statementStep, hpc, Option.some.injEq] at he
    simp only [Placed, hpc] at h
    subst he
    by_cases hr : ret = -1 ∧ q.errno = EINTR
    · rw [testStep, if_pos hr]
      rcases h with ⟨-, h⟩ | ⟨hne, -⟩
      · exact h
      · exact absurd hr.1 hne
    · rw [testStep, if_neg hr]
      refine ⟨rfl, fun fd hfd => ?_⟩
      rcases h with ⟨-, hn, -⟩ | ⟨-, ha, hh⟩
      · rw [hn] at hfd
        cases hfd
      · obtain rfl := Option.some.inj (ha.symm.trans hfd)
        exact hh
  | dispatch =>
    simp only [statementStep, hpc, Option.some.injEq] at he
    simp only [Placed, hpc] at h
    subst he
    by_cases h₀ : q.pid = 0
    · simp only [Placed, if_pos h₀]
      exact h
    · by_cases h₁ : 0 < q.pid
      · simp only [Placed, if_neg h₀, if_pos h₁]
      · simp only [Placed, if_neg h₀, if_neg h₁]
  | closeListen =>
    simp only [statementStep, hpc, Option.some.injEq] at he
    simp only [Placed, hpc] at h
    subst he
    refine ⟨h.1, fun fd hfd => ?_⟩
    obtain ⟨hl, ⟨n, hn⟩, hlow⟩ := h.2 fd hfd
    exact ⟨hl, ⟨n, (Descriptors.close_file_ne hl).trans hn⟩, hlow⟩
  | closeCommunicate | closeParent =>
    simp only [statementStep, hpc, Option.some.injEq] at he
    subst he
    trivial
  | accept | fork | read | respond | exited => simp [statementStep, hpc] at he

lemma acceptStep_cases {ret err : ℤ} (he : acceptStep q ret err = some q') : q.pc = .accept ∧
    (ret = -1 ∧ q' = { q with errno := err, pc := .test ret } ∨
      ret ≠ -1 ∧ q.fds.file q.listenfd = some .listener ∧ ∃ fds, q.fds.accept ret = some fds ∧
        q' = { q with fds := fds, accepted := q.accepted <|> some ret, pc := .test ret }) := by
  simp only [acceptStep] at he
  split_ifs at he with hpc hr _ hl
  · exact ⟨hpc, .inl ⟨hr, (Option.some.inj he).symm⟩⟩
  · obtain ⟨fds, ha, rfl⟩ := Option.map_eq_some_iff.mp he
    exact ⟨hpc, .inr ⟨hr, hl, fds, ha, rfl⟩⟩

lemma lowest_zero {ret : ℤ} {fds : Descriptors} (ha : q.fds.accept ret = some fds)
    (hc : ∀ fd, 0 ≤ fd → fd < ret → q.fds.file fd ≠ none) (h₀ : q.fds.file 0 = none) :
    ret = 0 := by
  by_contra hne
  have hpos : 0 < ret := lt_of_le_of_ne (Descriptors.accept_nonneg ha) (Ne.symm hne)
  exact hc 0 le_rfl hpos h₀

lemma acceptStep_placed {ret err : ℤ} (h : Placed q)
    (hc : ∀ fd, 0 ≤ fd → fd < ret → q.fds.file fd ≠ none)
    (he : acceptStep q ret err = some q') : Placed q' := by
  obtain ⟨hpc, ⟨rfl, rfl⟩ | ⟨hr, hl, fds, ha, rfl⟩⟩ := acceptStep_cases he
  · simp only [Placed, hpc] at h
    exact .inl ⟨rfl, h⟩
  · simp only [Placed, hpc] at h
    have hlisten : q.listenfd ≠ ret := by
      intro hfd
      rw [hfd, Descriptors.accept_closed ha] at hl
      cases hl
    exact .inr ⟨hr, by rw [h.1]; rfl, hlisten.symm, ⟨_, Descriptors.accept_file_self ha⟩,
      fun hb => lowest_zero ha hc (by rw [h.2]; exact hb)⟩

lemma statementStep_tended (hp : Placed q) (h : Tended q) (he : statementStep q = some q') :
    Tended q' := by
  cases hpc : q.pc with
  | top =>
    simp only [statementStep, hpc, Option.some.injEq] at he
    simp only [Tended, hpc] at h
    subst he
    exact h
  | test ret =>
    simp only [statementStep, hpc, Option.some.injEq] at he
    simp only [Tended, hpc] at h
    simp only [Placed, hpc] at hp
    subst he
    by_cases hr : ret = -1 ∧ q.errno = EINTR
    · rw [testStep, if_pos hr]
      rcases h with ⟨-, h⟩ | ⟨hne, -⟩
      · exact h
      · exact absurd hr.1 hne
    · rw [testStep, if_neg hr]
      rcases h with ⟨rfl, h⟩ | ⟨-, h⟩
      · obtain ⟨-, -, hfile⟩ := hp.resolve_right fun hp => hp.1 rfl
        refine ⟨h.onlyFirst.1, h.onlyFirst.2, fun hpos => ?_⟩
        rcases h.2 with ⟨h₀, -⟩ | ⟨-, hnone⟩
        · exact absurd h₀ hpos.ne'
        · exact hfile ▸ hnone
      · exact h
  | dispatch =>
    simp only [statementStep, hpc, Option.some.injEq] at he
    simp only [Tended, hpc] at h
    subst he
    simp only [Tended, if_neg h.1.ne', if_pos h.1]
    exact h
  | closeParent =>
    simp only [statementStep, hpc, Option.some.injEq] at he
    simp only [Tended, hpc] at h
    obtain ⟨hpos, honly, hfd⟩ := h
    subst he
    refine ⟨fun fd n hn => ?_, .inr ⟨hpos, by rw [hfd, Descriptors.close_file_self]⟩⟩
    simp only [hfd] at hn
    have hne : fd ≠ 0 := by
      rintro rfl
      rw [Descriptors.close_file_self] at hn
      cases hn
    exact honly fd n hne ((Descriptors.close_file_ne hne).symm.trans hn)
  | closeListen | closeCommunicate => simp [Tended, hpc] at h
  | accept | fork | read | respond | exited => simp [statementStep, hpc] at he

lemma acceptStep_tended {ret err : ℤ} (hp : Placed q) (h : Tended q)
    (hc : ∀ fd, 0 ≤ fd → fd < ret → q.fds.file fd ≠ none)
    (he : acceptStep q ret err = some q') : Tended q' := by
  obtain ⟨hpc, ⟨rfl, rfl⟩ | ⟨hr, -, fds, ha, rfl⟩⟩ := acceptStep_cases he
  · simp only [Tended, hpc] at h
    exact .inl ⟨rfl, h⟩
  · simp only [Tended, hpc] at h
    simp only [Placed, hpc] at hp
    refine .inr ⟨hr, fun fd n hne hn => ?_, h.onlyFirst.2, fun hpos => ?_⟩
    · by_cases hfd : fd = ret
      · rcases h.2 with ⟨-, hcount⟩ | ⟨-, hnone⟩
        · -- the connection of the first round has the number 0
          have hself := Descriptors.accept_file_self ha
          rw [← hfd, hn, hcount] at hself
          exact File.connection.inj (Option.some.inj hself)
        · exact absurd (hfd.trans (lowest_zero ha hc hnone)) hne
      · exact h.1 fd n ((Descriptors.accept_file_ne ha hfd).symm.trans hn)
    · rcases h.2 with ⟨h₀, -⟩ | ⟨-, hnone⟩
      · exact absurd h₀ hpos.ne'
      · exact hp.2 ▸ hnone

lemma actStep_placed {a : Action} (h : Placed q) (hq : s.procs p = some q)
    (hc : TakesLowest s (.act p a)) (he : actStep q a = some q') : Placed q' := by
  cases a with
  | statement => exact statementStep_placed h he
  | accept ret err => exact acceptStep_placed h (hc q hq) he
  | forkFails =>
    obtain ⟨-, rfl⟩ : _ ∧ { q with pc := .exited } = q' := by simpa [actStep] using he
    trivial
  | read r =>
    simp only [actStep, readStep, Option.ite_none_right_eq_some, Option.some.injEq] at he
    obtain ⟨⟨hpc, -⟩, rfl⟩ := he
    simp only [Placed, hpc] at h
    cases r with
    | error | data bytes => exact h
    | eof => trivial
  | write =>
    obtain ⟨hpc, rfl⟩ : q.pc = .respond ∧ { q with pc := .read } = q' := by
      simpa [actStep] using he
    simp only [Placed, hpc] at h
    exact h
  | sigpipe =>
    obtain ⟨-, rfl⟩ : _ ∧ { q with pc := .exited } = q' := by simpa [actStep] using he
    trivial
  | recycle childless =>
    obtain ⟨-, rfl⟩ : _ ∧ recycle q childless = q' := by simpa [actStep] using he
    exact h

lemma actStep_tended {a : Action} (hp : Placed q) (h : Tended q) (hq : s.procs p = some q)
    (hc : TakesLowest s (.act p a)) (he : actStep q a = some q') : Tended q' := by
  cases a with
  | statement => exact statementStep_tended hp h he
  | accept ret err => exact acceptStep_tended hp h (hc q hq) he
  | forkFails =>
    obtain ⟨-, rfl⟩ : _ ∧ { q with pc := .exited } = q' := by simpa [actStep] using he
    trivial
  | read r =>
    simp only [actStep, readStep, Option.ite_none_right_eq_some] at he
    simp [Tended, he.1.1] at h
  | write | sigpipe =>
    simp only [actStep, Option.ite_none_right_eq_some] at he
    simp [Tended, he.1] at h
  | recycle childless =>
    obtain ⟨-, rfl⟩ : _ ∧ recycle q childless = q' := by simpa [actStep] using he
    exact h

structure Lends (s : State) : Prop where
  placed : ∀ p q, s.procs p = some q → Placed q
  tended : ∀ q, s.procs 0 = some q → Tended q

lemma Lends.laterServed (h : Lends s) : LaterServed s where
  handed p q fd hq hb ha hpc := by
    have hplaced := h.placed p q hq
    have hheld : q.communicatefd = 0 ∧ ∀ fd, q.accepted = some fd → Held q fd := by
      rcases hpc with hpc | hpc | hpc
      all_goals
        simp only [Placed, hpc] at hplaced
        exact hplaced
    obtain ⟨-, hconn, hlow⟩ := hheld.2 fd ha
    exact ⟨hheld.1.trans (hlow hb).symm, hconn⟩
  later q hq hpos hpc := by
    have htended := h.tended q hq
    rcases hpc with hpc | hpc
    · have hplaced := h.placed 0 q hq
      simp only [Placed, hpc] at hplaced
      simp only [Tended, hpc] at htended
      rcases htended.2 with ⟨h₀, -⟩ | ⟨-, hnone⟩
      · exact absurd h₀ hpos.ne'
      · exact hplaced.2 ▸ hnone
    · simp only [Tended, hpc] at htended
      exact htended.2.2 hpos
  leaked q fd n hq hpc hn := by
    have htended := h.tended q hq
    simp only [Tended, hpc] at htended
    exact htended.1 fd n hn

lemma step_lends {l : Label} (h : Lends s) (hc : TakesLowest s l) (he : step s l = some s') :
    Lends s' := by
  cases l with
  | act p a =>
    obtain ⟨q, hq, he⟩ := Option.bind_eq_some_iff.mp he
    obtain ⟨q', ha, rfl⟩ := Option.map_eq_some_iff.mp he
    have hp : Placed q := h.placed p q hq
    constructor
    · intro r v hv
      rcases setProc_procs.mp hv with ⟨-, rfl⟩ | ⟨-, hv⟩
      · exact actStep_placed hp hq hc ha
      · exact h.placed r v hv
    · intro v hv
      rcases setProc_procs.mp hv with ⟨rfl, rfl⟩ | ⟨-, hv⟩
      · exact actStep_tended hp (h.tended q hq) hq hc ha
      · exact h.tended v hv
  | fork p =>
    obtain ⟨q, hq, he⟩ := Option.bind_eq_some_iff.mp he
    obtain ⟨hpc, rfl⟩ := by simpa only [forkStep, Option.ite_none_right_eq_some,
      Option.some.injEq] using he
    have hp : Placed q := h.placed p q hq
    simp only [Placed, hpc] at hp
    constructor
    · intro r v hv
      rcases setProc_procs.mp hv with ⟨-, rfl⟩ | ⟨-, hv⟩
      · exact hp
      · rcases setProc_procs.mp hv with ⟨-, rfl⟩ | ⟨-, hv⟩
        · exact hp
        · exact h.placed r v hv
    · intro v hv
      -- the child has a number above 0
      have hv : (s.setProc p { q with pid := s.forked + 1, pc := .dispatch }).procs 0 = some v := hv
      rcases setProc_procs.mp hv with ⟨rfl, rfl⟩ | ⟨-, hv⟩
      · have ht := h.tended q hq
        simp only [Tended, hpc] at ht
        exact ⟨Int.natCast_pos.mpr s.forked.succ_pos, ht.1, hp.1⟩
      · exact h.tended v hv

lemma start_lends : Lends (start listenfd inherited) := by
  have hstart : ∀ p q, (start listenfd inherited).procs p = some q → q.pc = .top ∧ q.pid = 0 ∧
      q.fds = .boot listenfd inherited := by
    intro p q hq
    by_cases hp : p = 0
    · rw [hp] at hq
      obtain rfl := Option.some.inj hq
      exact ⟨rfl, rfl, rfl⟩
    · simp [start, hp] at hq
  constructor
  · intro p q hq
    obtain ⟨hpc, -⟩ := hstart p q hq
    simp only [Placed, hpc]
  · intro q hq
    obtain ⟨hpc, hpid, hfds⟩ := hstart 0 q hq
    simp only [Tended, hpc, Fresh, hfds]
    exact ⟨fun fd n hn => absurd hn Descriptors.boot_connection, .inl ⟨hpid, rfl⟩⟩

/-- Although the first client is never answered, every later one is served on its own
connection, and the server never has more than the first one's left open. -/
theorem later_clients_served (listenfd : ℤ) (inherited : Finset ℤ) (ls : List Label) (s : State)
    (hr : (system listenfd inherited).Run (start listenfd inherited) ls s)
    (hc : (system listenfd inherited).Guarded TakesLowest (start listenfd inherited) ls) :
    (system listenfd inherited).Along LaterServed (start listenfd inherited) ls :=
  System.Guarded.along (K := Lends) (fun _ h => h.laterServed)
    (fun _ _ _ h hc he => step_lends h hc he) start_lends hr hc

/-- The first client gets descriptor 4 and its child reads standard input; the second one
gets 0 and is answered on it. -/
def twoClients : List Label :=
  [.act 0 .statement, .act 0 (.accept 4 0), .act 0 .statement, .fork 0, .act 0 .statement,
    .act 0 .statement, .act 0 .statement, .act 0 (.accept 0 0), .act 0 .statement, .fork 0,
    .act 2 .statement, .act 2 .statement, .act 2 (.read (.data [65]))]

theorem later_clients_served_second : ∃ s q, (system 3 {0, 1, 2}).Run (start 3 {0, 1, 2})
      twoClients s ∧
    s.procs 2 = some q ∧ q.pc = .respond ∧ q.communicatefd = 0 ∧
    q.fds.file 0 = some (.connection 1) ∧
    (system 3 {0, 1, 2}).Along LaterServed (start 3 {0, 1, 2}) twoClients := by
  have hrun : ((system 3 {0, 1, 2}).exec (start 3 {0, 1, 2}) twoClients).map (fun s =>
      (s.procs 2).map fun q => (q.pc, q.communicatefd, q.fds.file 0)) =
      some (some (.respond, 0, some (.connection 1))) := rfl
  obtain ⟨s, hs, he⟩ := Option.map_eq_some_iff.mp hrun
  obtain ⟨q, hq, he⟩ := Option.map_eq_some_iff.mp he
  simp only [Prod.mk.injEq] at he
  have hr := System.run_iff_exec.mpr hs
  exact ⟨s, q, hr, hq, he.1, he.2.1, he.2.2,
    later_clients_served 3 {0, 1, 2} twoClients s hr (by decide +kernel)⟩

end UnixProgramming.ProcessServer
