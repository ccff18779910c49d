import UnixProgramming.SimpleSuspend.Session

/-! A signal that is pending when it is blocked is caught or listed, and no signal is caught
more often than it was sent. -/

namespace UnixProgramming.SimpleSuspend

open Library Library.Transition

variable {e : Entry} {s s' t : State} {l : Label} {x y : Signal} {o tail : List Line}
  {r : Report} {i : ℕ}

namespace Pc

def blocking : Pc → Bool
  | .sigaction _ | .sleep | .sigpending _ | .list .before _ | .sigsuspend | .suspended
  | .returned | .after => true
  | _ => false

end Pc

/-- The signal is pending, its handler is about to print, or it has printed. -/
def Kept (x : Signal) (tail : List Line) (s : State) : Prop :=
  x ∈ s.signals.pending ∨ (∃ f ∈ s.frames, f.signo = x ∧ f.printed = false) ∨ .caught x ∈ tail

def Owed (x : Signal) (tail : List Line) (s : State) : Prop :=
  match s.pc with
  | .list .after i => .caught x ∈ tail ∨ x ∈ s.pendings ∧ (i ≤ x ∨ .pending .after x ∈ tail)
  | .ended (.exited _) => .caught x ∈ tail ∨ .pending .after x ∈ tail
  | .ended (.killed _) => True
  | _ => s.pc.blocking = true ∧ Kept x tail s

lemma owed_iff (h : s.pc.blocking = true) : Owed x tail s ↔ Kept x tail s := by
  cases hpc : s.pc with
  | list r i =>
    cases r with
    | before => simp [Owed, hpc, Pc.blocking]
    | after => simp [hpc, Pc.blocking] at h
  | ended v => simp [hpc, Pc.blocking] at h
  | getpid | sigprocmask => simp [hpc, Pc.blocking] at h
  | sigaction xs | sleep | sigpending r | sigsuspend | suspended | returned | after =>
    simp [Owed, hpc, Pc.blocking]

lemma Masked.handles (h : Masked e s) (hb : s.pc.blocking = true) (hx : x ∈ blockSet)
    (hd : x ∉ s.signals.blocked) : x ∈ s.handled := by
  cases hpc : s.pc with
  | suspended =>
    have hinst := h.installed
    simp only [Installed, hpc] at hinst
    rwa [hinst]
  | getpid | sigprocmask | ended v => simp [hpc, Pc.blocking] at hb
  | sigaction xs | sleep | sigpending r | list r i | sigsuspend | returned | after =>
    exact absurd (h.blocked (by rw [hpc]; rfl) (Finset.mem_union_left _ hx)) hd

lemma deliver_kept (hm : Masked e s) (hb : s.pc.blocking = true) (hx : x ∈ blockSet)
    (hk : Kept x tail s) (he : deliver e s y = some s') :
    (∃ z, s'.pc = .ended (.killed z)) ∨ s'.pc = s.pc ∧ Kept x tail s' := by
  obtain ⟨g, hg, rfl⟩ := Option.map_eq_some_iff.mp he
  have hpending : y ≠ x → x ∈ s.signals.pending → x ∈ g.pending :=
    fun hne hp => (Signals.take_pending hg (Ne.symm hne)).mpr hp
  by_cases hy : y ∈ s.handled
  · rw [if_pos hy]
    refine Or.inr ⟨rfl, ?_⟩
    rcases hk with hp | ⟨f, hf, hs⟩ | hc
    · by_cases hyx : y = x
      · exact Or.inr (Or.inl ⟨_, List.mem_cons_self, hyx, rfl⟩)
      · exact Or.inl (hpending hyx hp)
    · exact Or.inr (Or.inl ⟨f, List.mem_cons_of_mem _ hf, hs⟩)
    · exact Or.inr (Or.inr hc)
  · rw [if_neg hy]
    by_cases hf : e.fatal y = true
    · rw [if_pos hf]
      exact Or.inl ⟨y, rfl⟩
    · rw [if_neg hf]
      have hne : y ≠ x := by
        rintro rfl
        exact hy (hm.handles hb hx (Signals.take_eq_some.mp hg).1.2)
      exact Or.inr ⟨rfl, hk.imp_left (hpending hne)⟩

lemma handlerStep_kept (hm : Masked e s) (hk : Kept x tail s) (he : handlerStep s = some s') :
    ∃ more, s'.out = s.out ++ more ∧ s'.pc.blocking = true ∧ Kept x (tail ++ more) s' := by
  cases hfs : s.frames with
  | nil => simp [handlerStep, hfs] at he
  | cons f fs =>
    have hpc : s.pc = .suspended := by
      by_contra hne
      simp [hm.idle hne] at hfs
    simp only [handlerStep, hfs] at he
    by_cases hp : f.printed = true
    · simp only [hp, if_true, hpc, and_true, Option.some.injEq] at he
      subst he
      refine ⟨[], by simp, by split_ifs <;> rfl, ?_⟩
      rw [List.append_nil]
      rcases hk with hpend | ⟨f', hf', hs⟩ | hc
      · exact Or.inl hpend
      · rw [hfs] at hf'
        rcases List.mem_cons.mp hf' with rfl | hf'
        · simp [hp] at hs
        · exact Or.inr (Or.inl ⟨f', hf', hs⟩)
      · exact Or.inr (Or.inr hc)
    · have hsigno : f.signo = SIGUSR1 ∨ f.signo = SIGUSR2 ∨ f.signo = SIGINT := by
        simpa [blockSet] using (hm.frames f (by simp [hfs])).1
      rw [if_neg hp, if_pos hsigno, Option.some.injEq] at he
      subst he
      refine ⟨[.caught f.signo], rfl, by simp [print, hpc, Pc.blocking], ?_⟩
      rcases hk with hpend | ⟨f', hf', hs⟩ | hc
      · exact Or.inl hpend
      · rw [hfs] at hf'
        rcases List.mem_cons.mp hf' with rfl | hf'
        · exact Or.inr (Or.inr (by simp [hs.1]))
        · exact Or.inr (Or.inl ⟨f', List.mem_cons_of_mem _ hf', hs⟩)
      · exact Or.inr (Or.inr (List.mem_append_left _ hc))

lemma listStep_owed (hx : x ∈ blockSet) (hpc : s.pc = .list r i) (hf : s.frames = [])
    (ho : Owed x tail s) : ∃ more, (listStep s r i).out = s.out ++ more ∧
      Owed x (tail ++ more) (listStep s r i) := by
  have hlt : 1 ≤ x ∧ x < NSIG := by
    simp only [blockSet, Finset.mem_insert, Finset.mem_singleton] at hx
    rcases hx with rfl | rfl | rfl <;> decide
  by_cases hi : i < NSIG
  · have hstep : listStep s r i = { (if sigismember s.pendings i ≠ 0 then print s (.pending r i)
        else s) with pc := .list r (i + 1) } := if_pos hi
    obtain ⟨more, hout, hmore⟩ : ∃ more, (listStep s r i).out = s.out ++ more ∧
        (x ∈ s.pendings → i = x → .pending r x ∈ more) := by
      rw [hstep]
      by_cases hm : sigismember s.pendings i ≠ 0
      · rw [if_pos hm]
        exact ⟨[.pending r i], rfl, fun _ hix => by simp [hix]⟩
      · rw [if_neg hm]
        refine ⟨[], by simp, fun hp hix => absurd ?_ hm⟩
        simp [sigismember, hix, hp, hlt.1, hlt.2]
    refine ⟨more, hout, ?_⟩
    cases r with
    | before =>
      have hk := (owed_iff (by rw [hpc]; rfl)).mp ho
      rw [owed_iff (by rw [hstep]; rfl)]
      rcases hk with hp | ⟨f, hf', -⟩ | hc
      · refine Or.inl ?_
        rw [hstep]
        split_ifs <;> exact hp
      · simp [hf] at hf'
      · exact Or.inr (Or.inr (List.mem_append_left _ hc))
    | after =>
      have hpend : (listStep s .after i).pendings = s.pendings := by
        rw [hstep]
        split_ifs <;> rfl
      have hnext : (listStep s .after i).pc = .list .after (i + 1) := by rw [hstep]
      simp only [Owed, hpc] at ho
      simp only [Owed, hnext, hpend]
      rcases ho with hc | ⟨hp, hle | hl⟩
      · exact Or.inl (List.mem_append_left _ hc)
      · refine Or.inr ⟨hp, ?_⟩
        by_cases hix : i = x
        · exact Or.inr (List.mem_append_right _ (hmore hp hix))
        · exact Or.inl (by omega)
      · exact Or.inr ⟨hp, Or.inr (List.mem_append_left _ hl)⟩
  · cases r with
    | before =>
      have hstep : listStep s .before i = { s with pc := .sigsuspend } := if_neg hi
      have hk := (owed_iff (by rw [hpc]; rfl)).mp ho
      refine ⟨[], by rw [hstep, List.append_nil], ?_⟩
      rw [hstep, List.append_nil, owed_iff rfl]
      exact hk
    | after =>
      have hstep : listStep s .after i = { s with pc := .ended (.exited EXIT_SUCCESS) } := if_neg hi
      simp only [Owed, hpc] at ho
      refine ⟨[], by rw [hstep, List.append_nil], ?_⟩
      rw [hstep, List.append_nil]
      -- the list has passed the signal
      rcases ho with hc | ⟨-, hle | hl⟩
      · exact Or.inl hc
      · exact absurd (Nat.lt_of_le_of_lt hle hlt.2) hi
      · exact Or.inr hl

lemma statement_owed (hx : x ∈ blockSet) (hf : s.frames = [])
    (herrno : s.pc = .returned → s.errno = EINTR) (ho : Owed x tail s)
    (he : statement s = some s') : ∃ more, s'.out = s.out ++ more ∧ Owed x (tail ++ more) s' := by
  cases hpc : s.pc with
  | list r i =>
    simp only [statement, hpc, Option.some.injEq] at he
    exact he ▸ listStep_owed hx hpc hf ho
  | getpid | sigprocmask =>
    simp [Owed, hpc, Pc.blocking] at ho
  | suspended | ended v => simp [statement, hpc] at he
  | sigpending r =>
    have hk := (owed_iff (by rw [hpc]; rfl)).mp ho
    simp only [statement, hpc, Option.some.injEq] at he
    subst he
    refine ⟨[], by simp, ?_⟩
    rw [List.append_nil]
    cases r with
    | before => exact (owed_iff rfl).mpr hk
    | after =>
      rcases hk with hp | ⟨f, hf', -⟩ | hc
      · exact Or.inr ⟨hp, Or.inl (Nat.zero_le x)⟩
      · simp [hf] at hf'
      · exact Or.inl hc
  | returned =>
    have hk := (owed_iff (by rw [hpc]; rfl)).mp ho
    simp only [statement, hpc] at he
    split_ifs at he with herr
    · exact absurd (herrno hpc) herr
    · obtain rfl := Option.some.inj he
      exact ⟨[], by simp, by rw [List.append_nil]; exact (owed_iff rfl).mpr hk⟩
  | after =>
    have hk := (owed_iff (by rw [hpc]; rfl)).mp ho
    simp only [statement, hpc, Option.some.injEq] at he
    subst he
    refine ⟨[.after], rfl, (owed_iff rfl).mpr ?_⟩
    exact hk.imp id (Or.imp id (List.mem_append_left _))
  | sigaction signos =>
    have hk := (owed_iff (by rw [hpc]; rfl)).mp ho
    cases signos with
    | nil | cons y signos =>
      simp only [statement, hpc, Option.some.injEq] at he
      subst he
      exact ⟨[], by simp, by rw [List.append_nil]; exact (owed_iff rfl).mpr hk⟩
  | sleep | sigsuspend =>
    have hk := (owed_iff (by rw [hpc]; rfl)).mp ho
    simp only [statement, hpc, Option.some.injEq] at he
    subst he
    exact ⟨[], by simp, by rw [List.append_nil]; exact (owed_iff rfl).mpr hk⟩

lemma deliver_owed (hm : Masked e s) (hn : ended s = false) (hx : x ∈ blockSet)
    (ho : Owed x tail s) (he : deliver e s y = some s') :
    ∃ more, s'.out = s.out ++ more ∧ Owed x (tail ++ more) s' := by
  have hout : s'.out = s.out := by
    obtain ⟨g, -, rfl⟩ := Option.map_eq_some_iff.mp he
    split_ifs <;> rfl
  refine ⟨[], by rw [hout, List.append_nil], ?_⟩
  rw [List.append_nil]
  by_cases hb : s.pc.blocking = true
  · rcases deliver_kept hm hb hx ((owed_iff hb).mp ho) he with ⟨z, hz⟩ | ⟨hpc, hk⟩
    · simp [Owed, hz]
    · exact (owed_iff (by rwa [hpc])).mpr hk
  · obtain ⟨i, hpc⟩ : ∃ i, s.pc = .list .after i := by
      cases hpc : s.pc with
      | list r i =>
        cases r with
        | before => simp [hpc, Pc.blocking] at hb
        | after => exact ⟨i, rfl⟩
      | ended v => simp [ended, hpc] at hn
      | getpid | sigprocmask | sigaction xs | sleep | sigpending r | sigsuspend | suspended
      | returned | after =>
        simp only [Owed, hpc] at ho
        exact absurd (by rw [hpc]; exact ho.1) hb
    obtain ⟨g, -, rfl⟩ := Option.map_eq_some_iff.mp he
    simp only [Owed, hpc] at ho
    split_ifs
    · simpa only [Owed, hpc] using ho
    · trivial
    · simpa only [Owed, hpc] using ho

lemma step_owed (hm : Masked e s) (herrno : s.pc = .returned → s.errno = EINTR)
    (hx : x ∈ blockSet) (ho : Owed x tail s) (he : step e s l = some s') :
    ∃ more, s'.out = s.out ++ more ∧ Owed x (tail ++ more) s' := by
  simp only [step, Option.ite_none_left_eq_some, Bool.not_eq_true] at he
  obtain ⟨hn, he⟩ := he
  cases l with
  | statement =>
    simp only [Option.ite_none_right_eq_some] at he
    exact statement_owed hx he.1.1 herrno ho he.2
  | deliver y => exact deliver_owed hm hn hx ho he
  | handler =>
    have hb : s.pc.blocking = true := by
      have hpc : s.pc = .suspended := by
        by_contra hne
        simp [handlerStep, hm.idle hne] at he
      rw [hpc]
      rfl
    obtain ⟨more, hout, hb', hk⟩ := handlerStep_kept hm ((owed_iff hb).mp ho) he
    exact ⟨more, hout, (owed_iff hb').mpr hk⟩
  | send y =>
    obtain rfl := Option.some.inj he
    refine ⟨[], by simp, ?_⟩
    rw [List.append_nil]
    by_cases hb : s.pc.blocking = true
    · refine (owed_iff (by exact hb)).mpr (((owed_iff hb).mp ho).imp_left fun hp => ?_)
      exact Signals.mem_send.mpr (Or.inr hp)
    · cases hpc : s.pc with
      | list r i =>
        cases r with
        | before => simp [hpc, Pc.blocking] at hb
        | after => simpa only [Owed, hpc] using ho
      | ended v => simp [ended, hpc] at hn
      | getpid | sigprocmask | sigaction xs | sleep | sigpending r | sigsuspend | suspended
      | returned | after =>
        simp only [Owed, hpc] at ho
        exact absurd (by rw [hpc]; exact ho.1) hb

lemma reachable_sound (h : (system e).Reachable s) :
    (ended s = false → Masked e s) ∧ (s.pc = .returned → s.errno = EINTR) := by
  obtain ⟨s₀, h₀, ls, hr⟩ := h
  obtain ⟨p, hp⟩ : ∃ p, (session e).Run (s₀, fun _ => ∅) ls (s, p) := hr.record _
  obtain ⟨hm, xs, ht⟩ := (good_inductive e).reachable ⟨_, ⟨h₀, rfl⟩, ls, hp⟩
  exact ⟨hm, ht.errno⟩

lemma run_owed {ls : List Label} (hr : (system e).Run s ls t) (h : (system e).Reachable s)
    (hx : x ∈ blockSet) (ho : Owed x tail s) :
    ∃ more, t.out = s.out ++ more ∧ Owed x (tail ++ more) t := by
  induction hr generalizing tail with
  | nil s => exact ⟨[], by simp, by rwa [List.append_nil]⟩
  | @cons s s' t l ls he hr ih =>
    have hn : ended s = false := by
      simp only [system, step, Option.ite_none_left_eq_some, Bool.not_eq_true] at he
      exact he.1
    obtain ⟨hm, herrno⟩ := reachable_sound h
    obtain ⟨more, hout, ho'⟩ := step_owed (hm hn) herrno hx ho he
    obtain ⟨more', hout', ho''⟩ := ih (h.reaches ⟨[l], .cons he (.nil s')⟩) ho'
    exact ⟨more ++ more', by rw [hout', hout, List.append_assoc], by rwa [← List.append_assoc]⟩

def Frame.awaits (x : Signal) (f : Frame) : Bool :=
  f.signo = x ∧ f.printed = false

/-- How often a signal has been caught, is about to be, and is still due. -/
def weight (x : Signal) (s : State) : ℕ :=
  s.out.count (.caught x) + s.frames.countP (Frame.awaits x) + s.signals.due x

lemma weight_congr (ho : s'.out.count (.caught x) = s.out.count (.caught x))
    (hf : s'.frames = s.frames) (hd : s'.signals.due x = s.signals.due x) :
    weight x s' = weight x s := by
  rw [weight, weight, ho, hf, hd]

lemma listStep_weight : weight x (listStep s r i) = weight x s := by
  simp only [listStep]
  split_ifs
  · exact weight_congr (by simp [print, List.count_append]) rfl rfl
  · exact weight_congr rfl rfl rfl
  · exact weight_congr rfl rfl rfl

lemma statement_weight (he : statement s = some s') : weight x s' = weight x s := by
  cases hpc : s.pc with
  | list r i =>
    simp only [statement, hpc, Option.some.injEq] at he
    exact he ▸ listStep_weight
  | returned =>
    simp only [statement, hpc] at he
    split_ifs at he
    · obtain rfl := Option.some.inj he
      exact weight_congr (by simp [print, List.count_append]) rfl rfl
    · obtain rfl := Option.some.inj he
      exact weight_congr rfl rfl rfl
  | sigaction signos =>
    cases signos with
    | nil | cons y signos =>
      simp only [statement, hpc, Option.some.injEq] at he
      subst he
      exact weight_congr rfl rfl rfl
  | getpid | after =>
    simp only [statement, hpc, Option.some.injEq] at he
    subst he
    exact weight_congr (by simp [print, List.count_append]) rfl rfl
  | sigprocmask | sleep | sigpending r | sigsuspend =>
    simp only [statement, hpc, Option.some.injEq] at he
    subst he
    exact weight_congr rfl rfl rfl
  | suspended | ended v => simp [statement, hpc] at he

lemma deliver_weight (he : deliver e s y = some s') : weight x s' ≤ weight x s := by
  obtain ⟨g, hg, rfl⟩ := Option.map_eq_some_iff.mp he
  have hdue : (g.due x + if y = x then 1 else 0) = s.signals.due x := Signals.due_take hg
  split_ifs
  · have hawaits : Frame.awaits x ⟨y, false, savedMask s⟩ = decide (y = x) := by
      simp [Frame.awaits]
    simp only [weight, Signals.due_enter, List.countP_cons, hawaits, decide_eq_true_eq]
    omega
  · simp only [weight]
    omega
  · simp only [weight]
    omega

lemma handlerStep_weight (he : handlerStep s = some s') : weight x s' ≤ weight x s := by
  cases hfs : s.frames with
  | nil => simp [handlerStep, hfs] at he
  | cons f fs =>
    simp only [handlerStep, hfs] at he
    by_cases hp : f.printed = true
    · rw [if_pos hp, Option.some.injEq] at he
      subst he
      simp only [weight, hfs, List.countP_cons, Signals.due_setMask]
      omega
    · have hdone : Frame.awaits x { f with printed := true } = false := by
        simp [Frame.awaits]
      have hawaits : Frame.awaits x f = decide (f.signo = x) := by
        simp [Frame.awaits, hp]
      rw [if_neg hp, Option.some.injEq] at he
      subst he
      split_ifs
      · simp only [weight, print, hfs, List.countP_cons, hdone, hawaits, List.count_append,
          List.count_singleton, beq_iff_eq, Line.caught.injEq, decide_eq_true_eq]
        simp only [Bool.false_eq_true, if_false]
        omega
      · simp only [weight, hfs, List.countP_cons, hdone]
        simp only [Bool.false_eq_true, if_false]
        omega

lemma step_weight (x : Signal) (s : State) (l : Label) (s' : State)
    (he : (system e).step s l = some s') :
    weight x s' ≤ weight x s + if l = .send x then 1 else 0 := by
  simp only [system, step, Option.ite_none_left_eq_some] at he
  obtain ⟨-, he⟩ := he
  cases l with
  | statement =>
    simp only [Option.ite_none_right_eq_some] at he
    simpa using (statement_weight he.2).le
  | handler => simpa using handlerStep_weight he
  | deliver y => simpa using deliver_weight he
  | send y =>
    obtain rfl := Option.some.inj he
    have hdue : (s.signals.send y).due x ≤ s.signals.due x + if y = x then 1 else 0 :=
      Signals.due_send
    simp only [weight, Label.send.injEq]
    omega

/-- A signal that is blocked is caught or listed when the process exits, and a signal is not
caught more often than it was sent. -/
theorem no_signal_lost (e : Entry) (x : Signal) (hx : x ∈ blockSet) :
    (∀ s ls t v, (system e).Reachable s → s.pc.blocking = true → x ∈ s.signals.pending →
      (system e).Run s ls t → t.pc = .ended (.exited v) →
      ∃ tail, t.out = s.out ++ tail ∧ (.caught x ∈ tail ∨ .pending .after x ∈ tail)) ∧
    ∀ ls t, (system e).Run (start e) ls t →
      t.out.count (.caught x) ≤ e.signals.due x + ls.count (.send x) := by
  constructor
  · intro s ls t v hs hb hp hr hv
    have ho₀ : Owed x [] s := (owed_iff hb).mpr (Or.inl hp)
    obtain ⟨tail, hout, ho⟩ := run_owed hr hs hx ho₀
    simp only [Owed, hv, List.nil_append] at ho
    exact ⟨tail, hout, ho⟩
  · intro ls t hr
    have hle := hr.le_add_count (step_weight x)
    have hstart : weight x (start e) = e.signals.due x := by
      simp [weight, start]
    rw [hstart] at hle
    exact (Nat.le_add_right _ _).trans ((Nat.le_add_right _ _).trans hle)

theorem no_signal_lost_one : ∃ s t : State, (system ⟨⟨∅, ∅⟩, fun _ => true⟩).Reachable s ∧
    SIGUSR1 ∈ s.signals.pending ∧ t.pc = .ended (.exited 0) ∧
    ∃ tail, t.out = s.out ++ tail ∧ (.caught SIGUSR1 ∈ tail ∨ .pending .after SIGUSR1 ∈ tail) := by
  have hrun : ((system ⟨⟨∅, ∅⟩, fun _ => true⟩).exec (start ⟨⟨∅, ∅⟩, fun _ => true⟩)
      (signalled.take 7)).map (fun s => (s.pc.blocking, decide (SIGUSR1 ∈ s.signals.pending),
        ((system ⟨⟨∅, ∅⟩, fun _ => true⟩).exec s (signalled.drop 7)).map State.pc)) =
      some (true, true, some (.ended (.exited 0))) := by decide +kernel
  obtain ⟨s, hs, hobs⟩ := Option.map_eq_some_iff.mp hrun
  simp only [Prod.mk.injEq, decide_eq_true_eq, Option.map_eq_some_iff] at hobs
  obtain ⟨hb, hp, t, ht, hv⟩ := hobs
  have hreach : (system ⟨⟨∅, ∅⟩, fun _ => true⟩).Reachable s := .exec rfl hs
  exact ⟨s, t, hreach, hp, hv, (no_signal_lost _ SIGUSR1 (by decide)).1 s _ t 0 hreach hb hp
    (System.run_iff_exec.mpr ht) hv⟩

end UnixProgramming.SimpleSuspend
