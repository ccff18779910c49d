import UnixProgramming.ProcessServer.Handover

/-! The shape of the process tree: what the inner loop of a child falls through to
decides who calls `accept` and `fork`. -/

namespace UnixProgramming.ProcessServer

open Library Library.Transition

structure Lineage where
  parent : ℕ → Option ℕ
  ended : ℕ → Bool

namespace Lineage

def none : Lineage := ⟨fun _ => .none, fun _ => false⟩

-- A read has reported the end of the stream or an error.
def read (h : Lineage) (p : ℕ) : ReadResult → Lineage
  | .error | .eof => { h with ended := Function.update h.ended p true }
  | .data _ => h

def extend (h : Lineage) (s : State) : Label → Lineage
  | .fork p => { h with parent := Function.update h.parent (s.forked + 1) (some p) }
  | .act p (.read r) => h.read p r
  | .act _ _ => h

end Lineage

def recorded (listenfd : ℤ) (inherited : Finset ℤ) : System (State × Lineage) Label :=
  (system listenfd inherited).record .none Lineage.extend

lemma recorded_start (listenfd : ℤ) (inherited : Finset ℤ) :
    (recorded listenfd inherited).initial (start listenfd inherited, .none) :=
  ⟨rfl, rfl⟩

/-- The program points before the branch on `pid` and those of the parent's branch. -/
def Pc.outer : Pc → Bool
  | .top | .accept | .test _ | .fork | .closeParent => true
  | .dispatch | .closeListen | .read | .respond | .closeCommunicate | .exited => false

def State.children (s : State) : Finset ℕ :=
  (Finset.range (s.forked + 1)).filter fun p =>
    0 < p ∧ (s.procs p).any (fun q => q.pc ≠ .exited) = true

def State.connections (s : State) : ℕ :=
  ((s.procs 0).map fun q => q.fds.accepted).getD 0

def Pc.serves : Pc → Bool
  | .accept | .fork | .read | .respond => true
  | .top | .test _ | .dispatch | .closeListen | .closeCommunicate | .closeParent | .exited => false

-- Not the handler, which leaves the process where it is.
def Action.own : Action → Bool
  | .recycle _ => false
  | .statement | .accept _ _ | .forkFails | .read _ | .write | .sigpipe => true

/-- On every way that its statements can take from here, the process closes its connection and
ends after finitely many of them, and it neither serves a client nor calls `accept` or `fork`
before that. -/
inductive Leaves : Proc → Prop
  | gone {q : Proc} : q.pc = .exited → (∀ fd ∈ q.accepted, q.fds.file fd = none) → Leaves q
  | goesOn {q : Proc} : q.pc.serves = false → (∃ a q', a.own = true ∧ actStep q a = some q') →
      (∀ a q', a.own = true → actStep q a = some q' → Leaves q') → Leaves q

structure Flat (r : State × Lineage) : Prop where
  serves : ∀ p q, 0 < p → r.1.procs p = some q → q.pc.outer = false
  stops : ∀ p q, 0 < p → r.1.procs p = some q → r.2.ended p = true → Leaves q
  parent : ∀ p q, 0 < p → r.1.procs p = some q → r.2.parent p = some 0
  alive : r.1.children.card ≤ r.1.connections

/-- No read of a child reports the end of the stream or an error. -/
def ChildReads (l : Label) : Prop :=
  ∀ p r, 0 < p → l = .act p (.read r) → r ≠ .eof ∧ r ≠ .error

/-- The server tests no failed `accept` other than an interrupted one. -/
def ServerRetries (s : State) (l : Label) : Prop :=
  ∀ q, s.procs 0 = some q → l = .act 0 .statement → q.pc = .test (-1) → q.errno = EINTR

lemma childReads_read {p : ℕ} {r : ReadResult} : ChildReads (.act p (.read r)) ↔
    (0 < p → r ≠ .eof ∧ r ≠ .error) := by
  constructor
  · exact fun h hp => h p r hp rfl
  · rintro h p' r' hp hl
    obtain ⟨rfl, ha⟩ := Label.act.inj hl
    cases ha
    exact h hp

instance : ∀ l, Decidable (ChildReads l)
  | .act _ (.read _) => decidable_of_iff _ childReads_read.symm
  | .act _ .statement | .act _ (.accept _ _) | .act _ .forkFails | .act _ .write |
    .act _ .sigpipe | .act _ (.recycle _) | .fork _ => isTrue (by simp [ChildReads])

instance (s : State) (l : Label) : Decidable (ServerRetries s l) :=
  inferInstanceAs (Decidable
    (∀ q ∈ s.procs 0, l = .act 0 .statement → q.pc = .test (-1) → q.errno = EINTR))

variable {s s' : State} {h : Lineage} {q q' : Proc} {p : ℕ} {l : Label} {a : Action}

def ServerPoint (q : Proc) : Prop :=
  match q.pc with
  | .top | .accept | .test _ | .fork | .closeParent | .exited => True
  | .dispatch => 0 < q.pid
  | .closeListen | .read | .respond | .closeCommunicate => False

def ChildPoint (q : Proc) : Prop :=
  q.pc = .exited ∨ (q.pc.outer = false ∧ q.pc ≠ .closeCommunicate) ∧ q.pid = 0

def Proc.waiting (q : Proc) : ℕ :=
  match q.pc with
  | .test ret => if ret = -1 then 0 else 1
  | .fork => 1
  | _ => 0

structure Orderly (s : State) (h : Lineage) : Prop where
  server : ∀ q, s.procs 0 = some q → ServerPoint q ∧ s.forked + q.waiting ≤ q.fds.accepted
  exists_server : s.procs 0 ≠ none
  child : ∀ p q, 0 < p → s.procs p = some q → ChildPoint q
  running : ∀ p, 0 < p → h.ended p = false
  parent : ∀ p q, 0 < p → s.procs p = some q → h.parent p = some 0
  numbered : ∀ p, s.forked < p → s.procs p = none

lemma Orderly.flat (h' : Orderly s h) : Flat (s, h) where
  serves p q hp hq := by
    rcases h'.child p q hp hq with hpc | ⟨⟨ho, -⟩, -⟩
    · rw [hpc]
      rfl
    · exact ho
  stops p q hp hq he := by
    rw [h'.running p hp] at he
    cases he
  parent := h'.parent
  alive := by
    obtain ⟨q, hq⟩ := Option.ne_none_iff_exists'.mp h'.exists_server
    have hsub : s.children ⊆ Finset.Ioc 0 s.forked := by
      intro p hp
      obtain ⟨hr, hpos, -⟩ := Finset.mem_filter.mp hp
      exact Finset.mem_Ioc.mpr ⟨hpos, Nat.lt_succ_iff.mp (Finset.mem_range.mp hr)⟩
    calc s.children.card ≤ (Finset.Ioc 0 s.forked).card := Finset.card_le_card hsub
      _ = s.forked := Nat.card_Ioc 0 s.forked
      _ ≤ q.fds.accepted := le_trans (Nat.le_add_right _ _) (h'.server q hq).2
      _ = s.connections := by simp [State.connections, hq]

lemma start_orderly (listenfd : ℤ) (inherited : Finset ℤ) :
    Orderly (start listenfd inherited) .none := by
  have hnone : ∀ p, 0 < p → (start listenfd inherited).procs p = none := by
    intro p hp
    simp [start, hp.ne']
  refine ⟨fun q hq => ?_, by simp [start], fun p q hp hq => ?_, fun _ _ => rfl,
    fun p q hp hq => ?_, fun p hp => hnone p (by simpa [start] using hp)⟩
  · obtain rfl := Option.some.inj hq
    exact ⟨trivial, le_rfl⟩
  · rw [hnone p hp] at hq
    cases hq
  · rw [hnone p hp] at hq
    cases hq

lemma statementStep_server (hp : ServerPoint q) (hc : q.pc = .test (-1) → q.errno = EINTR)
    (he : statementStep q = some q') :
    ServerPoint q' ∧ q'.waiting ≤ q.waiting ∧ q'.fds.accepted = q.fds.accepted := by
  cases hpc : q.pc with
  | top =>
    simp only [statementStep, hpc, Option.some.injEq] at he
    subst he
    exact ⟨trivial, Nat.zero_le _, rfl⟩
  | test ret =>
    simp only [statementStep, hpc, Option.some.injEq] at he
    subst he
    by_cases hr : ret = -1 ∧ q.errno = EINTR
    · rw [testStep, if_pos hr]
      exact ⟨trivial, Nat.zero_le _, rfl⟩
    · have hret : ret ≠ -1 := by
        rintro rfl
        exact hr ⟨rfl, hc hpc⟩
      rw [testStep, if_neg hr]
      exact ⟨trivial, by simp [Proc.waiting, hpc, hret], rfl⟩
  | dispatch =>
    simp only [ServerPoint, hpc] at hp
    simp only [statementStep, hpc, if_neg hp.ne', if_pos hp, Option.some.injEq] at he
    subst he
    exact ⟨trivial, Nat.zero_le _, rfl⟩
  | closeParent =>
    simp only [statementStep, hpc, Option.some.injEq] at he
    subst he
    exact ⟨trivial, Nat.zero_le _, rfl⟩
  | closeListen | read | respond | closeCommunicate => simp [ServerPoint, hpc] at hp
  | accept | fork | exited => simp [statementStep, hpc] at he

lemma acceptStep_server {ret err : ℤ} (he : acceptStep q ret err = some q') :
    ServerPoint q' ∧ q'.waiting + q.fds.accepted ≤ q'.fds.accepted := by
  simp only [acceptStep] at he
  split_ifs at he with hpc hr _ hl
  · obtain rfl := Option.some.inj he
    exact ⟨trivial, by simp [Proc.waiting, hr]⟩
  · obtain ⟨fds, ha, rfl⟩ := Option.map_eq_some_iff.mp he
    refine ⟨trivial, ?_⟩
    simp [Proc.waiting, hr, Descriptors.accept_accepted ha, Nat.add_comm]

lemma actStep_server (hp : ServerPoint q)
    (hc : a = .statement → q.pc = .test (-1) → q.errno = EINTR) (he : actStep q a = some q') :
    ServerPoint q' ∧ q'.waiting + q.fds.accepted ≤ q.waiting + q'.fds.accepted := by
  cases a with
  | statement =>
    obtain ⟨hp', hw, ha⟩ := statementStep_server hp (hc rfl) he
    exact ⟨hp', by omega⟩
  | accept ret err =>
    obtain ⟨hp', hw⟩ := acceptStep_server he
    exact ⟨hp', by omega⟩
  | forkFails =>
    obtain ⟨-, rfl⟩ : _ ∧ { q with pc := .exited } = q' := by simpa [actStep] using he
    exact ⟨trivial, by simp [Proc.waiting]⟩
  | read r =>
    simp only [actStep, readStep, Option.ite_none_right_eq_some] at he
    simp [ServerPoint, he.1.1] at hp
  | write =>
    simp only [actStep, Option.ite_none_right_eq_some] at he
    simp [ServerPoint, he.1] at hp
  | sigpipe =>
    simp only [actStep, Option.ite_none_right_eq_some] at he
    simp [ServerPoint, he.1] at hp
  | recycle childless =>
    obtain ⟨-, rfl⟩ : _ ∧ recycle q childless = q' := by simpa [actStep] using he
    exact ⟨hp, le_rfl⟩

lemma actStep_child (hp : ChildPoint q) (hr : ∀ r, a = .read r → r ≠ .eof ∧ r ≠ .error)
    (he : actStep q a = some q') : ChildPoint q' := by
  cases a with
  | statement =>
    simp only [actStep] at he
    cases hpc : q.pc with
    | dispatch =>
      obtain ⟨-, hpid⟩ := hp.resolve_left (by simp [hpc])
      simp only [statementStep, hpc, hpid, if_true, Option.some.injEq] at he
      subst he
      exact Or.inr ⟨⟨rfl, by simp⟩, rfl⟩
    | closeListen =>
      obtain ⟨-, hpid⟩ := hp.resolve_left (by simp [hpc])
      simp only [statementStep, hpc, Option.some.injEq] at he
      subst he
      exact Or.inr ⟨⟨rfl, by simp⟩, hpid⟩
    | closeCommunicate | top | test ret | closeParent => simp [ChildPoint, hpc, Pc.outer] at hp
    | accept | fork | read | respond | exited => simp [statementStep, hpc] at he
  | accept ret err =>
    simp only [actStep, acceptStep] at he
    split_ifs at he with hpc <;> simp [ChildPoint, hpc, Pc.outer] at hp
  | forkFails =>
    obtain ⟨-, rfl⟩ : _ ∧ { q with pc := .exited } = q' := by simpa [actStep] using he
    exact Or.inl rfl
  | read r =>
    simp only [actStep, readStep, Option.ite_none_right_eq_some, Option.some.injEq] at he
    obtain ⟨⟨hpc, -⟩, rfl⟩ := he
    obtain ⟨-, hpid⟩ := hp.resolve_left (by simp [hpc])
    cases r with
    | error => exact absurd rfl (hr .error rfl).2
    | eof => exact absurd rfl (hr .eof rfl).1
    | data bytes => exact Or.inr ⟨⟨rfl, by simp⟩, hpid⟩
  | write =>
    obtain ⟨hpc, rfl⟩ : q.pc = .respond ∧ { q with pc := .read } = q' := by
      simpa [actStep] using he
    obtain ⟨-, hpid⟩ := hp.resolve_left (by simp [hpc])
    exact Or.inr ⟨⟨rfl, by simp⟩, hpid⟩
  | sigpipe =>
    obtain ⟨-, rfl⟩ : _ ∧ { q with pc := .exited } = q' := by simpa [actStep] using he
    exact Or.inl rfl
  | recycle childless =>
    obtain ⟨-, rfl⟩ : _ ∧ recycle q childless = q' := by simpa [actStep] using he
    exact hp

lemma extend_parent : (h.extend s (.act p a)).parent = h.parent := by
  cases a with
  | read r => cases r <;> rfl
  | _ => rfl

lemma extend_running (hr : ChildReads l) (hrun : ∀ p, 0 < p → h.ended p = false) :
    ∀ p, 0 < p → (h.extend s l).ended p = false := by
  intro p hp
  cases l with
  | fork _ => exact hrun p hp
  | act r a =>
    cases a with
    | read b =>
      cases b with
      | data bytes => exact hrun p hp
      | error | eof =>
        have hne : p ≠ r := by
          rintro rfl
          simp [childReads_read, hp] at hr
        simpa [Lineage.extend, Lineage.read, hne] using hrun p hp
    | _ => exact hrun p hp

lemma act_orderly (h' : Orderly s h) (hc : ChildReads (.act p a))
    (hret : ServerRetries s (.act p a)) (hq : s.procs p = some q) (ha : actStep q a = some q') :
    Orderly (s.setProc p q') (h.extend s (.act p a)) := by
  have hle : p ≤ s.forked := by
    by_contra hlt
    rw [h'.numbered p (by omega)] at hq
    cases hq
  refine ⟨fun v hv => ?_, ?_, fun r v hr hv => ?_, extend_running hc h'.running,
    fun r v hr hv => ?_, fun r hlt => ?_⟩
  · rcases setProc_procs.mp hv with ⟨rfl, rfl⟩ | ⟨-, hv⟩
    · obtain ⟨hp, hcount⟩ := h'.server q hq
      obtain ⟨hp', hw⟩ := actStep_server hp (fun hs hpc => hret q hq (hs ▸ rfl) hpc) ha
      refine ⟨hp', ?_⟩
      have hforked : (s.setProc 0 q').forked = s.forked := rfl
      omega
    · exact h'.server v hv
  · by_cases hp : p = 0 <;> simp [State.setProc, hp, h'.exists_server, Ne.symm]
  · rcases setProc_procs.mp hv with ⟨rfl, rfl⟩ | ⟨-, hv⟩
    · exact actStep_child (h'.child r q hr hq) (fun b hb => hc r b hr (hb ▸ rfl)) ha
    · exact h'.child r v hr hv
  · rw [extend_parent]
    rcases setProc_procs.mp hv with ⟨rfl, -⟩ | ⟨-, hv⟩
    · exact h'.parent r q hr hq
    · exact h'.parent r v hr hv
  · have hne : r ≠ p := by
      rintro rfl
      exact absurd hlt (by simpa [State.setProc] using hle)
    simpa [State.setProc, hne] using h'.numbered r hlt

lemma forkStep_cases (he : forkStep s p q = some s') :
    q.pc = .fork ∧ s'.forked = s.forked + 1 ∧ ∀ r, s'.procs r =
      if r = s.forked + 1 then some { q with pid := 0, pc := .dispatch }
      else if r = p then some { q with pid := (s.forked + 1 : ℕ), pc := .dispatch }
      else s.procs r := by
  simp only [forkStep, Option.ite_none_right_eq_some, Option.some.injEq] at he
  obtain ⟨hpc, rfl⟩ := he
  exact ⟨hpc, rfl, fun r => by simp only [State.setProc, Function.update_apply]⟩

lemma fork_orderly (h' : Orderly s h) (hq : s.procs p = some q) (he : forkStep s p q = some s') :
    Orderly s' (h.extend s (.fork p)) := by
  obtain ⟨hpc, hforked, hprocs⟩ := forkStep_cases he
  -- only the server is at its `fork`
  obtain rfl : p = 0 := by
    by_contra hp
    have hchild := h'.child p q (Nat.pos_of_ne_zero hp) hq
    simp [ChildPoint, hpc, Pc.outer] at hchild
  have hzero : s'.procs 0 = some { q with pid := (s.forked + 1 : ℕ), pc := .dispatch } := by
    rw [hprocs, if_neg (Nat.succ_ne_zero _).symm, if_pos rfl]
  have hnew : ∀ r v, 0 < r → s'.procs r = some v →
      r = s.forked + 1 ∧ v.pc = .dispatch ∧ v.pid = 0 ∨ r ≠ s.forked + 1 ∧ s.procs r = some v := by
    intro r v hr hv
    rw [hprocs] at hv
    split_ifs at hv with hc h₀
    · obtain rfl := Option.some.inj hv
      exact Or.inl ⟨hc, rfl, rfl⟩
    · exact absurd h₀ hr.ne'
    · exact Or.inr ⟨hc, hv⟩
  refine ⟨fun v hv => ?_, by simp [hzero], fun r v hr hv => ?_, h'.running,
    fun r v hr hv => ?_, fun r hlt => ?_⟩
  · obtain ⟨-, hcount⟩ := h'.server q hq
    simp only [Proc.waiting, hpc] at hcount
    obtain rfl := Option.some.inj (hzero.symm.trans hv)
    exact ⟨Int.natCast_pos.mpr (Nat.succ_pos _), hforked ▸ hcount⟩
  · rcases hnew r v hr hv with ⟨-, hd, hpid⟩ | ⟨-, hv⟩
    · exact Or.inr ⟨by simp [hd, Pc.outer], hpid⟩
    · exact h'.child r v hr hv
  · rcases hnew r v hr hv with ⟨rfl, -, -⟩ | ⟨hne, hv⟩
    · simp [Lineage.extend]
    · simpa [Lineage.extend, hne] using h'.parent r v hr hv
  · rw [hforked] at hlt
    rw [hprocs, if_neg hlt.ne', if_neg (by omega)]
    exact h'.numbered r (by omega)

lemma step_orderly (h' : Orderly s h) (hc : ChildReads l) (hr : ServerRetries s l)
    (he : step s l = some s') : Orderly s' (h.extend s l) := by
  cases l with
  | act p a =>
    obtain ⟨q, hq, he⟩ := Option.bind_eq_some_iff.mp he
    obtain ⟨q', ha, rfl⟩ := Option.map_eq_some_iff.mp he
    exact act_orderly h' hc hr hq ha
  | fork p =>
    obtain ⟨q, hq, he⟩ := Option.bind_eq_some_iff.mp he
    exact fork_orderly h' hq he

lemma Leaves.next (hl : Leaves q) (hpc : q.pc ≠ .exited) (ha : a.own = true)
    (he : actStep q a = some q') : Leaves q' := by
  cases hl with
  | gone hx => exact absurd hx hpc
  | goesOn _ _ hnext => exact hnext a q' ha he

lemma not_leaves_serving (hpc : q.pc.serves = true) : ¬ Leaves q := by
  intro hl
  cases hl with
  | gone hx => simp [hx, Pc.serves] at hpc
  | goesOn hs => simp [hs] at hpc

-- The `break` leads back to the top of the loop, and from there to `accept`.
lemma not_leaves_closing (hpc : q.pc = .closeCommunicate) : ¬ Leaves q := by
  intro hl
  let q₁ : Proc := { q with fds := q.fds.close q.communicatefd, pc := .top }
  let q₂ : Proc := { q₁ with accepted := none, before := q₁.fds.file, pc := .accept }
  have h₁ : Leaves q₁ := by
    apply hl.next (a := .statement) (by simp [hpc]) rfl
    simp [actStep, statementStep, hpc, q₁]
  have h₂ : Leaves q₂ := h₁.next (a := .statement) (by simp [q₁]) rfl rfl
  exact not_leaves_serving rfl h₂

lemma child_runs_on (hc : ¬ ChildReads l) (he : step s l = some s') :
    ¬ Flat (s', h.extend s l) := by
  intro hflat
  simp only [ChildReads, not_forall] at hc
  obtain ⟨p, r, hp, rfl, hr⟩ := hc
  obtain ⟨v, hv, he⟩ := Option.bind_eq_some_iff.mp he
  obtain ⟨q', ha, rfl⟩ := Option.map_eq_some_iff.mp he
  simp only [actStep, readStep, Option.ite_none_right_eq_some, Option.some.injEq] at ha
  obtain ⟨-, rfl⟩ := ha
  have hleaves := hflat.stops p _ hp (setProc_procs.mpr (Or.inl ⟨rfl, rfl⟩))
  cases r with
  | data bytes => simp at hr
  | error => exact not_leaves_serving rfl (hleaves (by simp [Lineage.extend, Lineage.read]))
  | eof => exact not_leaves_closing rfl (hleaves (by simp [Lineage.extend, Lineage.read]))

theorem process_tree_flat (listenfd : ℤ) (inherited : Finset ℤ) (ls : List Label) (s : State)
    (hr : (system listenfd inherited).Run (start listenfd inherited) ls s) :
    ((recorded listenfd inherited).Guarded (fun r l => ChildReads l ∧ ServerRetries r.1 l)
        (start listenfd inherited, .none) ls →
      (recorded listenfd inherited).Along Flat (start listenfd inherited, .none) ls) ∧
    ((recorded listenfd inherited).Along Flat (start listenfd inherited, .none) ls →
      (recorded listenfd inherited).Guarded (fun _ l => ChildReads l)
        (start listenfd inherited, .none) ls) := by
  obtain ⟨h, hrec⟩ := hr.record (f := Lineage.extend) (a := .none) .none
  constructor
  · intro hg
    apply hg.along (K := fun r => Orderly r.1 r.2) (fun r h' => h'.flat) _
      (start_orderly listenfd inherited) hrec
    rintro ⟨r, h⟩ l ⟨r', h'⟩ ho ⟨hc, hs⟩ he
    obtain ⟨he, rfl⟩ := System.record_step.mp he
    exact step_orderly ho hc hs he
  · intro ha
    apply ha.guarded (K := fun _ => True) (fun _ _ _ _ _ _ => trivial) _ trivial hrec
    rintro ⟨r, h⟩ l ⟨r', h'⟩ - hc he
    obtain ⟨he, rfl⟩ := System.record_step.mp he
    exact child_runs_on hc he

theorem process_tree_flat_one : ∃ s,
    (system 3 {0, 1, 2}).Run (start 3 {0, 1, 2})
      [.act 0 .statement, .act 0 (.accept 5 0), .act 0 .statement, .fork 0, .act 1 .statement,
        .act 1 .statement, .act 1 (.read (.data [104])), .act 1 .write] s ∧
    (recorded 3 {0, 1, 2}).Along Flat (start 3 {0, 1, 2}, .none)
      [.act 0 .statement, .act 0 (.accept 5 0), .act 0 .statement, .fork 0, .act 1 .statement,
        .act 1 .statement, .act 1 (.read (.data [104])), .act 1 .write] := by
  have hrun : ((system 3 {0, 1, 2}).exec (start 3 {0, 1, 2})
      [.act 0 .statement, .act 0 (.accept 5 0), .act 0 .statement, .fork 0, .act 1 .statement,
        .act 1 .statement, .act 1 (.read (.data [104])), .act 1 .write]).isSome = true := by decide
  obtain ⟨s, hr⟩ := System.exists_run hrun
  exact ⟨s, hr, (process_tree_flat 3 {0, 1, 2} _ s hr).1 (by decide)⟩

/-- The client disconnects: its child calls `accept` on the closed descriptor, and
forks when that fails. -/
theorem child_forks : ∃ r : State × Lineage, (recorded 3 {0, 1, 2}).Reachable r ∧
    r.2.ended 1 = true ∧ r.2.parent 2 = some 1 ∧ (r.1.procs 2).map Proc.pc = some .dispatch ∧
    r.1.children = {1, 2} ∧ r.1.connections = 1 ∧ ¬ Flat r := by
  have hrun : ((recorded 3 {0, 1, 2}).exec (start 3 {0, 1, 2}, .none)
      [.act 0 .statement, .act 0 (.accept 5 0), .act 0 .statement, .fork 0, .act 1 .statement,
        .act 1 .statement, .act 1 (.read .eof), .act 1 .statement, .act 1 .statement,
        .act 1 (.accept (-1) EBADF), .act 1 .statement, .fork 1]).map (fun r =>
        (r.2.ended 1, r.2.parent 2, (r.1.procs 2).map Proc.pc, r.1.children, r.1.connections)) =
      some (true, some 1, some .dispatch, {1, 2}, 1) := by decide
  obtain ⟨r, hr, he⟩ := System.Reachable.observe (recorded_start 3 {0, 1, 2}) hrun
  simp only [Prod.mk.injEq] at he
  obtain ⟨hended, hparent, hpc, hchildren, hconn⟩ := he
  refine ⟨r, hr, hended, hparent, hpc, hchildren, hconn, fun hflat => ?_⟩
  have halive := hflat.alive
  rw [hchildren, hconn] at halive
  exact absurd halive (by decide)

end UnixProgramming.ProcessServer
