import UnixProgramming.SimpleSuspend.Masks

/-! The lines that the program has printed when it exits: the signals are caught between the
two lists of pending ones. -/

namespace UnixProgramming.SimpleSuspend

open Library Library.Transition

variable {e : Entry} {s s' : State} {l : Label} {x : Signal} {p p' : Report → Finset Signal}
  {xs : List Signal} {r : Report} {i : ℕ}

/-- The lines of the first `i` numbers: the pending signals, and 0, which is no signal. -/
def listed (r : Report) (pending : Finset Signal) (i : ℕ) : List Line :=
  ((List.range i).filter fun k => k = 0 ∨ k ∈ pending).map (.pending r)

def pendingThen (p : Report → Finset Signal) (s : State) (l : Label) : Report → Finset Signal :=
  match s.pc, l with
  | .sigpending r, .statement => Function.update p r s.signals.pending
  | _, _ => p

def session (e : Entry) : System (State × (Report → Finset Signal)) Label :=
  (system e).record (fun _ => ∅) pendingThen

/-- What has been printed, when `xs` have been caught. -/
def lines (p : Report → Finset Signal) (xs : List Signal) (s : State) : List Line :=
  match s.pc with
  | .getpid => []
  | .sigprocmask | .sigaction _ | .sleep | .sigpending .before => [.pid]
  | .list .before i => .pid :: listed .before (p .before) i
  | .sigsuspend | .suspended | .returned | .after =>
    .pid :: listed .before (p .before) NSIG ++ xs.map .caught
  | .sigpending .after => .pid :: listed .before (p .before) NSIG ++ xs.map .caught ++ [.after]
  | .list .after i =>
    .pid :: listed .before (p .before) NSIG ++ xs.map .caught ++
      .after :: listed .after (p .after) i
  | .ended (.exited _) =>
    .pid :: listed .before (p .before) NSIG ++ xs.map .caught ++
      .after :: listed .after (p .after) NSIG
  | .ended (.killed _) => s.out

namespace Pc

def resumed : Pc → Bool
  | .returned | .after | .sigpending .after | .list .after _ | .ended (.exited _) => true
  | _ => false

def unsuspended : Pc → Bool
  | .getpid | .sigprocmask | .sigaction _ | .sleep | .sigpending .before | .list .before _
  | .sigsuspend => true
  | _ => false

end Pc

structure Told (e : Entry) (p : Report → Finset Signal) (xs : List Signal) (s : State) : Prop where
  out : s.out = lines p xs s
  caught : ∀ x ∈ xs, x ∈ blockSet ∧ x ∉ e.signals.blocked
  printed : ∀ f ∈ s.frames, f.printed = true → f.signo ∈ xs
  none : s.pc.unsuspended = true → xs = []
  some : s.pc.resumed = true → xs ≠ []
  list : ∀ r i, s.pc = .list r i → s.pendings = p r ∧ i ≤ NSIG
  errno : s.pc = .returned → s.errno = EINTR
  status : ∀ v, s.pc = .ended (.exited v) → v = EXIT_SUCCESS

lemma listed_succ {pending : Finset Signal} (hi : i < NSIG) : listed r pending (i + 1) =
    listed r pending i ++ if sigismember pending i ≠ 0 then [.pending r i] else [] := by
  have hmem : sigismember pending i ≠ 0 ↔ i = 0 ∨ i ∈ pending := by
    simp only [sigismember]
    rcases Nat.eq_zero_or_pos i with rfl | hpos
    · simp
    · have hne : i ≠ 0 := by omega
      have hone : 1 ≤ i := hpos
      by_cases hp : i ∈ pending <;> simp [hp, hne, hone, hi]
  rw [listed, List.range_succ, List.filter_append, List.map_append, ← listed]
  congr 1
  by_cases hp : i = 0 ∨ i ∈ pending
  · simp [hmem, hp]
  · simp [hmem, hp]

lemma start_told (e : Entry) : Told e (fun _ => ∅) [] (start e) where
  out := rfl
  caught x hx := by cases hx
  printed f hf := by cases hf
  none _ := rfl
  some h := by cases h
  list r i h := by cases h
  errno h := by cases h
  status v h := by cases h

lemma Told.signals {g : Signals Signal} (h : Told e p xs s) :
    Told e p xs { s with signals := g } :=
  ⟨h.out, h.caught, h.printed, h.none, h.some, h.list, h.errno, h.status⟩

lemma deliver_told (h : Told e p xs s) (he : deliver e s x = some s') : Told e p xs s' := by
  obtain ⟨g, hg, rfl⟩ := Option.map_eq_some_iff.mp he
  split_ifs with hx hf
  · refine ⟨h.out, h.caught, fun f hf hp => ?_, h.none, h.some, h.list, h.errno, h.status⟩
    rcases List.mem_cons.mp hf with rfl | hf
    · cases hp
    · exact h.printed f hf hp
  · exact ⟨rfl, h.caught, h.printed, fun hr => (by cases hr), fun hr => (by cases hr),
      fun r i hr => (by cases hr), fun hr => (by cases hr), fun v hv => (by cases hv)⟩
  · exact h.signals

lemma print_told {f : Frame} {fs : List Frame} (hm : Masked e s) (h : Told e p xs s)
    (hfs : s.frames = f :: fs) (hpc : s.pc = .suspended) :
    Told e p (xs ++ [f.signo]) { print s (.caught f.signo) with
      frames := { f with printed := true } :: fs } := by
  have hout := h.out
  simp only [lines, hpc] at hout
  obtain ⟨hmem, hnot, -⟩ := hm.frames f (by simp [hfs])
  rw [hm.prevSet (by rw [hpc]; rfl)] at hnot
  refine ⟨?_, fun x hx => ?_, fun f' hf' hp => ?_, fun hr => ?_, fun hr => ?_, fun r i hr => ?_,
    fun hr => ?_, fun v hv => ?_⟩
  · simp [lines, print, hpc, hout]
  · rcases List.mem_append.mp hx with hx | hx
    · exact h.caught x hx
    · rw [List.mem_singleton.mp hx]
      exact ⟨hmem, hnot⟩
  · rcases List.mem_cons.mp hf' with rfl | hf'
    · simp
    · exact List.mem_append_left _ (h.printed f' (by simp [hfs, hf']) hp)
  · simp [print, hpc, Pc.unsuspended] at hr
  · simp
  · simp [print, hpc] at hr
  · simp [print, hpc] at hr
  · simp [print, hpc] at hv

lemma return_told {f : Frame} {fs : List Frame} {g : Signals Signal} (h : Told e p xs s)
    (hfs : s.frames = f :: fs) (hpc : s.pc = .suspended) (hp : f.printed = true) :
    Told e p xs { s with
      signals := g
      frames := fs
      errno := if fs = [] then EINTR else s.errno
      pc := if fs = [] then .returned else .suspended } := by
  have hout := h.out
  simp only [lines, hpc] at hout
  have hxs : xs ≠ [] := List.ne_nil_of_mem (h.printed f (by simp [hfs]) hp)
  have hrest : ∀ f' ∈ fs, f'.printed = true → f'.signo ∈ xs :=
    fun f' hf' hp' => h.printed f' (by simp [hfs, hf']) hp'
  by_cases hnil : fs = []
  · simp only [hnil, if_true]
    exact ⟨hout, h.caught, by simp, by simp [Pc.unsuspended], fun _ => hxs, by simp, fun _ => rfl,
      by simp⟩
  · simp only [hnil, if_false]
    exact ⟨hout, h.caught, hrest, by simp [Pc.unsuspended], fun _ => hxs, by simp, by simp, by simp⟩

lemma handlerStep_told (hm : Masked e s) (h : Told e p xs s) (he : handlerStep s = some s') :
    ∃ xs', Told e p xs' s' := by
  cases hfs : s.frames with
  | nil => simp [handlerStep, hfs] at he
  | cons f fs =>
    have hpc : s.pc = .suspended := by
      by_contra hne
      simp [hm.idle hne] at hfs
    simp only [handlerStep, hfs] at he
    by_cases hp : f.printed = true
    · simp only [hp, if_true, hpc, and_true, Option.some.injEq] at he
      exact ⟨xs, he ▸ return_told h hfs hpc hp⟩
    · have hsigno : f.signo = SIGUSR1 ∨ f.signo = SIGUSR2 ∨ f.signo = SIGINT := by
        simpa [blockSet] using (hm.frames f (by simp [hfs])).1
      rw [if_neg hp, if_pos hsigno, Option.some.injEq] at he
      exact ⟨_, he ▸ print_told hm h hfs hpc⟩

lemma Told.goto (h : Told e p xs s) (hf : s'.frames = []) (hout : s'.out = lines p' xs s')
    (hu : s'.pc.unsuspended = true → s.pc.unsuspended = true)
    (hr : s'.pc.resumed = true → s.pc.resumed = true)
    (hb : ∀ r i, s'.pc = .list r i → s'.pendings = p' r ∧ i ≤ NSIG) (hret : s'.pc ≠ .returned)
    (hv : ∀ v, s'.pc = .ended (.exited v) → v = EXIT_SUCCESS) : Told e p' xs s' where
  out := hout
  caught := h.caught
  printed f hmem := by simp [hf] at hmem
  none hu' := h.none (hu hu')
  some hr' := h.some (hr hr')
  list := hb
  errno hpc := absurd hpc hret
  status := hv

lemma listStep_told (h : Told e p xs s) (hf : s.frames = []) (hpc : s.pc = .list r i) :
    Told e p xs (listStep s r i) := by
  have hout := h.out
  obtain ⟨hp, hle⟩ := h.list r i hpc
  by_cases hi : i < NSIG
  · have hstep : listStep s r i = { (if sigismember s.pendings i ≠ 0 then print s (.pending r i)
        else s) with pc := .list r (i + 1) } := if_pos hi
    have hnext : ∀ r' k, Pc.list r (i + 1) = .list r' k → s.pendings = p r' ∧ k ≤ NSIG := by
      rintro r' k ⟨⟩
      exact ⟨hp, hi⟩
    rw [hstep]
    cases r with
    | before | after =>
      simp only [lines, hpc] at hout
      apply h.goto
      · split_ifs <;> exact hf
      · split_ifs with hm <;> simp [lines, print, hout, listed_succ hi, ← hp, hm]
      · simp [Pc.unsuspended, hpc]
      · simp [Pc.resumed, hpc]
      · split_ifs <;> exact hnext
      · simp
      · simp
  · have hend : i = NSIG := Nat.le_antisymm hle (Nat.not_lt.mp hi)
    cases r with
    | before =>
      have hstep : listStep s .before i = { s with pc := .sigsuspend } := if_neg hi
      have hnil : xs = [] := h.none (by rw [hpc]; rfl)
      simp only [lines, hpc, hend] at hout
      rw [hstep]
      exact h.goto hf (by simp [lines, hout, hnil]) (by simp [Pc.unsuspended, hpc])
        (by simp [Pc.resumed]) (by simp) (by simp) (by simp)
    | after =>
      have hstep : listStep s .after i = { s with pc := .ended (.exited EXIT_SUCCESS) } := if_neg hi
      simp only [lines, hpc, hend] at hout
      rw [hstep]
      exact h.goto hf (by simp [lines, hout]) (by simp [Pc.unsuspended])
        (by simp [Pc.resumed, hpc]) (by simp) (by simp) (by simp)

lemma sigpending_told (h : Told e p xs s) (hf : s.frames = []) (hpc : s.pc = .sigpending r) :
    Told e (Function.update p r s.signals.pending) xs { s with
      pendings := s.signals.pending
      pc := .list r 0 } := by
  have hout := h.out
  have hzero : ∀ r' k, Pc.list r 0 = .list r' k →
      s.signals.pending = Function.update p r s.signals.pending r' ∧ k ≤ NSIG := by
    rintro r' k ⟨⟩
    exact ⟨by simp, Nat.zero_le _⟩
  cases r with
  | before | after =>
    simp only [lines, hpc] at hout
    exact h.goto hf (by simp [lines, listed, hout]) (by simp [Pc.unsuspended, hpc])
      (by simp [Pc.resumed, hpc]) hzero (by simp) (by simp)

lemma statement_told (h : Told e p xs s) (hf : s.frames = []) (he : statement s = some s') :
    Told e (pendingThen p s .statement) xs s' := by
  have hout := h.out
  cases hpc : s.pc with
  | sigpending r =>
    simp only [statement, hpc, Option.some.injEq] at he
    simp only [pendingThen, hpc]
    exact he ▸ sigpending_told h hf hpc
  | list r i =>
    simp only [statement, hpc, Option.some.injEq] at he
    simp only [pendingThen, hpc]
    exact he ▸ listStep_told h hf hpc
  | returned =>
    simp only [lines, hpc] at hout
    simp only [statement, hpc, h.errno hpc, ne_eq, not_true_eq_false, if_false,
      Option.some.injEq] at he
    subst he
    simp only [pendingThen, hpc]
    exact h.goto hf (by simp [lines, hout]) (by simp [Pc.unsuspended]) (by simp [Pc.resumed, hpc])
      (by simp) (by simp) (by simp)
  | sigaction signos =>
    simp only [lines, hpc] at hout
    simp only [pendingThen, hpc]
    cases signos with
    | nil | cons x signos =>
      simp only [statement, hpc, Option.some.injEq] at he
      subst he
      exact h.goto hf (by simp [lines, hout]) (by simp [Pc.unsuspended, hpc])
        (by simp [Pc.resumed]) (by simp) (by simp) (by simp)
  | getpid | sigprocmask | sleep | sigsuspend | after =>
    simp only [lines, hpc] at hout
    simp only [statement, hpc, Option.some.injEq] at he
    subst he
    simp only [pendingThen, hpc]
    exact h.goto hf (by simp [lines, print, hout]) (by simp [Pc.unsuspended, hpc])
      (by simp [Pc.resumed, hpc]) (by simp) (by simp) (by simp)
  | suspended | ended o => simp [statement, hpc] at he

def Good (e : Entry) (q : State × (Report → Finset Signal)) : Prop :=
  (ended q.1 = false → Masked e q.1) ∧ ∃ xs, Told e q.2 xs q.1

lemma good_inductive (e : Entry) : (session e).Inductive (Good e) where
  initial := by
    rintro ⟨_, _⟩ ⟨rfl, rfl⟩
    exact ⟨fun _ => start_masked e, [], start_told e⟩
  step q l q' h he := by
    obtain ⟨he, hp⟩ := System.record_step.mp he
    obtain ⟨hm, xs, ht⟩ := h
    have hn : ended q.1 = false := by
      simp only [system, step, Option.ite_none_left_eq_some, Bool.not_eq_true] at he
      exact he.1
    refine ⟨step_masked (hm hn) he, ?_⟩
    simp only [system, step, hn, Bool.false_eq_true, if_false] at he
    rw [hp]
    cases l with
    | statement =>
      simp only [Option.ite_none_right_eq_some] at he
      exact ⟨xs, statement_told ht he.1.1 he.2⟩
    | handler =>
      obtain ⟨xs', ht'⟩ := handlerStep_told (hm hn) ht he
      exact ⟨xs', by simpa [pendingThen] using ht'⟩
    | send x =>
      have hq := Option.some.inj he
      exact ⟨xs, by simpa [pendingThen, ← hq] using ht.signals⟩
    | deliver x => exact ⟨xs, by simpa [pendingThen] using deliver_told ht he⟩

/-- The handler runs in `sigsuspend` only. A process that exits has caught some signal, and
lists 0 with the pending signals. -/
theorem caught_between (e : Entry) (q : State × (Report → Finset Signal))
    (h : (session e).Reachable q) :
    (ended q.1 = false → q.1.frames ≠ [] → q.1.pc = .suspended) ∧
    ∀ v, q.1.pc = .ended (.exited v) → v = EXIT_SUCCESS ∧
      ∃ xs, xs ≠ [] ∧ (∀ x ∈ xs, x ∈ blockSet ∧ x ∉ e.signals.blocked) ∧
        q.1.out = .pid :: listed .before (q.2 .before) NSIG ++ xs.map .caught ++
          .after :: listed .after (q.2 .after) NSIG := by
  obtain ⟨hm, xs, ht⟩ := (good_inductive e).reachable h
  constructor
  · intro hn hf
    by_contra hne
    exact hf ((hm hn).idle hne)
  · intro v hv
    have hout := ht.out
    simp only [lines, hv] at hout
    exact ⟨ht.status v hv, xs, ht.some (by rw [hv]; rfl), ht.caught, hout⟩

/-- A process in whose mask no signal is blocked, with one signal sent while it sleeps. -/
def signalled : List Label :=
  List.replicate 6 .statement ++ .send SIGUSR1 :: List.replicate 69 .statement ++
    [.deliver SIGUSR1, .handler, .handler] ++ List.replicate 69 .statement

theorem caught_between_one : ∃ q, (session ⟨⟨∅, ∅⟩, fun _ => true⟩).Reachable q ∧
    q.1.pc = .ended (.exited 0) ∧ ∃ xs, xs ≠ [] ∧ q.1.out =
      .pid :: listed .before (q.2 .before) NSIG ++ xs.map .caught ++
        .after :: listed .after (q.2 .after) NSIG := by
  have hrun : ((session ⟨⟨∅, ∅⟩, fun _ => true⟩).exec (start ⟨⟨∅, ∅⟩, fun _ => true⟩, fun _ => ∅)
      signalled).map (fun q => q.1.pc) = some (.ended (.exited 0)) := by decide +kernel
  have h₀ : (session ⟨⟨∅, ∅⟩, fun _ => true⟩).initial
      (start ⟨⟨∅, ∅⟩, fun _ => true⟩, fun _ => ∅) := ⟨rfl, rfl⟩
  obtain ⟨q, hq, hpc⟩ := System.Reachable.observe h₀ hrun
  obtain ⟨-, xs, hxs, -, hout⟩ := (caught_between _ q hq).2 0 hpc
  exact ⟨q, hq, hpc, xs, hxs, hout⟩

end UnixProgramming.SimpleSuspend
