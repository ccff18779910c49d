import UnixProgramming.Abort.Outcome

/-! How often a handler of `SIGABRT` that returns runs before `abort` ends the process. -/

namespace UnixProgramming.Abort

open Library Library.Transition

def handled (n : ℕ) (s : State) : Label → ℕ
  | .deliver x => if x = SIGABRT ∧ s.action.sa_handler = .caught then n + 1 else n
  | .statement | .handlerReturns _ => n

/-- The runs of `abort`, with the number of times a handler of `SIGABRT` was entered. -/
def handlings (e : Entry) : System (State × ℕ) Label :=
  (system e).record 0 handled

structure HandledOnce (e : Entry) : Prop where
  aborts : Aborts e
  atMost : ∀ s n, (handlings e).Reachable (s, n) → n ≤ 1
  atEnd : ∀ s n, (handlings e).Reachable (s, n) → ended s = true → n = 1

/-- `SIGABRT` is let through before it is raised, and does not wait at the call. -/
structure Raisable (e : Entry) : Prop where
  quiet : Quiet e
  pending : SIGABRT ∉ e.signals.pending
  unblocked : SIGABRT ∈ e.action.sa_mask ∨ SIGABRT ∉ e.signals.blocked

variable {e : Entry} {s s' : State} {x : Signal} {l : Label} {n : ℕ}

section Sufficient

structure Armed (e : Entry) (s : State) (n : ℕ) : Prop where
  handler : s.action.sa_handler = .caught
  saved : s.saved = none
  none : n = 0
  unblocked : SIGABRT ∈ e.action.sa_mask ∨ SIGABRT ∉ s.signals.blocked

def Raising (e : Entry) (s : State) (n : ℕ) : Prop :=
  match s.pc with
  | .query | .ignored | .default | .flush | .member | .unblock =>
    Armed e s n ∧ SIGABRT ∉ s.signals.pending
  | .kill => (Armed e s n ∧ SIGABRT ∉ s.signals.blocked) ∧ SIGABRT ∉ s.signals.pending
  | .flushAgain =>
    (Armed e s n ∧ SIGABRT ∉ s.signals.blocked) ∧ SIGABRT ∈ s.signals.pending ∨
      n = 1 ∧ SIGABRT ∉ s.signals.pending
  | .restore | .setMask | .killAgain => n = 1 ∧ SIGABRT ∉ s.signals.pending
  | .exit | .ended _ => n = 1

lemma statement_raising (hc : e.action.sa_handler = .caught) (hp : Contained e s)
    (h : Raising e s n) (hs : Settled s) (he : statement e s = some s') : Raising e s' n := by
  have hpoint := hp.point
  cases hpc : s.pc with
  | query =>
    simp only [Raising, hpc] at h
    simp only [statement, hpc, Option.some.injEq] at he
    subst he
    exact ⟨⟨h.1.handler, h.1.saved, h.1.none, h.1.unblocked⟩, h.2⟩
  | ignored =>
    simp only [Raising, hpc] at h
    simp only [Point, hpc] at hpoint
    have hign : s.sa.sa_handler ≠ .SIG_IGN := by simp [hpoint, hc]
    simp only [statement, hpc, if_neg hign, Option.some.injEq] at he
    subst he
    exact ⟨⟨h.1.handler, h.1.saved, h.1.none, h.1.unblocked⟩, h.2⟩
  | default =>
    simp only [Raising, hpc] at h
    simp only [Point, hpc] at hpoint
    have hdfl : s.sa.sa_handler ≠ .SIG_DFL := fun hd => hpoint.2 hd hc
    simp only [statement, hpc, if_neg hdfl, Option.some.injEq] at he
    subst he
    exact ⟨⟨h.1.handler, h.1.saved, h.1.none, h.1.unblocked⟩, h.2⟩
  | flush =>
    simp only [Point, hpc] at hpoint
    exact absurd hc hpoint.2
  | member =>
    simp only [Raising, hpc] at h
    simp only [Point, hpc] at hpoint
    have harmed : ∀ sa pc, Armed e { s with sa := sa, pc := pc } n := fun _ _ =>
      ⟨h.1.handler, h.1.saved, h.1.none, h.1.unblocked⟩
    simp only [statement, hpc] at he
    split_ifs at he with hmem <;> obtain rfl := Option.some.inj he
    · exact ⟨harmed _ _, h.2⟩
    · rw [hpoint] at hmem
      exact ⟨⟨harmed s.sa _, h.1.unblocked.resolve_left hmem⟩, h.2⟩
  | unblock =>
    simp only [Raising, hpc] at h
    simp only [Point, hpc] at hpoint
    simp only [statement, hpc, Option.some.injEq] at he
    subst he
    exact ⟨⟨⟨h.1.handler, h.1.saved, h.1.none, Or.inr hpoint.1⟩, hpoint.1⟩, h.2⟩
  | kill =>
    simp only [Raising, hpc] at h
    simp only [statement, hpc, Option.some.injEq] at he
    subst he
    exact Or.inl ⟨⟨⟨h.1.1.handler, h.1.1.saved, h.1.1.none, h.1.1.unblocked⟩, h.1.2⟩,
      Signals.mem_send.mpr (Or.inl rfl)⟩
  | flushAgain =>
    simp only [Raising, hpc] at h
    simp only [statement, hpc, Option.some.injEq] at he
    subst he
    rcases h with ⟨⟨-, hb⟩, hin⟩ | h
    · exact absurd (hs.2 SIGABRT hin) hb
    · exact h
  | restore | setMask =>
    simp only [Raising, hpc] at h
    simp only [statement, hpc, Option.some.injEq] at he
    subst he
    exact h
  | killAgain =>
    simp only [Raising, hpc] at h
    simp only [statement, hpc, Option.some.injEq] at he
    subst he
    exact h.1
  | exit =>
    simp only [Raising, hpc] at h
    simp only [statement, hpc, Option.some.injEq] at he
    subst he
    exact h
  | ended o => simp [statement, hpc] at he

lemma Raising.due (h : Raising e s n) (hp : Contained e s) (hn : ended s = false)
    (hd : s.signals.Deliverable SIGABRT) : s.pc = .flushAgain ∧ Armed e s n ∨
      s.pc = .exit ∧ n = 1 ∧ s.action.sa_handler = .SIG_DFL := by
  have hpoint := hp.point
  cases hpc : s.pc with
  | query | ignored | default | flush | member | unblock | kill | restore | setMask | killAgain =>
    simp only [Raising, hpc] at h
    exact absurd hd.1 h.2
  | flushAgain =>
    simp only [Raising, hpc] at h
    rcases h with ⟨h, -⟩ | h
    · exact Or.inl ⟨rfl, h.1⟩
    · exact absurd hd.1 h.2
  | exit =>
    simp only [Raising, hpc] at h
    simp only [Point, hpc] at hpoint
    exact Or.inr ⟨rfl, h, hpoint.2.1⟩
  | ended o => simp [ended, hpc] at hn

lemma Raising.taken {g : Signals Signal} (h : Raising e s n) (hg : s.signals.take x = some g)
    (hx : x ≠ SIGABRT) : Raising e { s with signals := g } n := by
  have hin : SIGABRT ∈ g.pending ↔ SIGABRT ∈ s.signals.pending := Signals.take_pending hg hx.symm
  have hb : g.blocked = s.signals.blocked := (Signals.take_eq_some.mp hg).2.2
  have harmed : ∀ pc, Armed e s n → Armed e { s with signals := g, pc := pc } n := fun _ h =>
    ⟨h.handler, h.saved, h.none, by rw [hb]; exact h.unblocked⟩
  cases hpc : s.pc with
  | query | ignored | default | flush | member | unblock =>
    simp only [Raising, hpc, hin] at h ⊢
    exact ⟨harmed _ h.1, h.2⟩
  | kill =>
    simp only [Raising, hpc, hin, hb] at h ⊢
    exact ⟨⟨harmed _ h.1.1, h.1.2⟩, h.2⟩
  | flushAgain =>
    simp only [Raising, hpc, hin, hb] at h ⊢
    exact h.imp_left fun h => ⟨⟨harmed _ h.1.1, h.1.2⟩, h.2⟩
  | restore | setMask | killAgain | exit | ended o =>
    simp only [Raising, hpc, hin] at h ⊢
    exact h

lemma deliver_raising (hp : Contained e s) (h : Raising e s n) (hn : ended s = false)
    (he : deliver e s x = some s') : Raising e s' (handled n s (.deliver x)) := by
  obtain ⟨g, hg, rfl⟩ := Option.map_eq_some_iff.mp he
  obtain ⟨hd, hpending, -⟩ := Signals.take_eq_some.mp hg
  by_cases hx : x = SIGABRT
  · subst hx
    rcases h.due hp hn hd with ⟨hpc, harmed⟩ | ⟨hpc, hone, hdfl⟩
    · have hout : SIGABRT ∉ g.pending := by simp [hpending]
      simp only [if_true, handled, harmed.handler, and_self, harmed.none]
      simp only [Raising, hpc]
      exact Or.inr ⟨trivial, hout⟩
    · simp only [if_true, handled, hdfl, true_and, reduceCtorEq, if_false]
      exact hone
  · simp only [handled, hx, false_and, if_false]
    split_ifs with hf
    · exact absurd (hp.blocked x hd.1 hx hf).1 hd.2
    · exact h.taken hg hx

lemma handlerReturns_raising {installed : Option Sigaction} (h : Raising e s n)
    (hn : ended s = false) (he : handlerReturns s installed = some s') : Raising e s' n := by
  obtain ⟨mask, hv, rfl⟩ := Option.map_eq_some_iff.mp he
  have hbusy : ¬ Armed e s n := fun harmed => by simp [harmed.saved] at hv
  cases hpc : s.pc with
  | query | ignored | default | flush | member | unblock =>
    simp only [Raising, hpc] at h
    exact absurd h.1 hbusy
  | kill =>
    simp only [Raising, hpc] at h
    exact absurd h.1.1 hbusy
  | flushAgain =>
    simp only [Raising, hpc] at h ⊢
    exact Or.inr (h.resolve_left fun h => hbusy h.1.1)
  | restore | setMask | killAgain | exit =>
    simp only [Raising, hpc] at h ⊢
    exact h
  | ended o => simp [ended, hpc] at hn

lemma start_raising (hc : e.action.sa_handler = .caught) (hr : Raisable e) :
    Raising e (start e) 0 :=
  ⟨⟨hc, rfl, rfl, hr.unblocked⟩, hr.pending⟩

lemma raising_inductive (hc : e.action.sa_handler = .caught) (hr : Raisable e) :
    (handlings e).Inductive fun r => Contained e r.1 ∧ Raising e r.1 r.2 := by
  apply (contained_inductive hr.quiet (Or.inl hc)).record.and
  · rintro ⟨_, _⟩ ⟨rfl, rfl⟩
    exact start_raising hc hr
  · intro r l r' hp _ h he
    obtain ⟨he, hn⟩ := System.record_step.mp he
    rw [hn]
    simp only [system, step, Option.ite_none_left_eq_some, Bool.not_eq_true] at he
    obtain ⟨hgoing, he⟩ := he
    cases l with
    | statement =>
      simp only [Option.ite_none_right_eq_some] at he
      exact statement_raising hc hp h he.1 he.2
    | deliver x => exact deliver_raising hp h hgoing he
    | handlerReturns installed => exact handlerReturns_raising h hgoing he

lemma Raising.le_one (h : Raising e s n) : n ≤ 1 := by
  cases hpc : s.pc with
  | query | ignored | default | flush | member | unblock =>
    simp only [Raising, hpc] at h
    exact h.1.none.le.trans zero_le_one
  | kill =>
    simp only [Raising, hpc] at h
    exact h.1.1.none.le.trans zero_le_one
  | flushAgain =>
    simp only [Raising, hpc] at h
    rcases h with ⟨h, -⟩ | h
    · exact h.1.none.le.trans zero_le_one
    · exact h.1.le
  | restore | setMask | killAgain =>
    simp only [Raising, hpc] at h
    exact h.1.le
  | exit | ended o =>
    simp only [Raising, hpc] at h
    exact h.le

lemma Raising.eq_one (h : Raising e s n) (he : ended s = true) : n = 1 := by
  cases hpc : s.pc with
  | ended o =>
    simp only [Raising, hpc] at h
    exact h
  | query | ignored | default | flush | member | unblock | kill | flushAgain | restore | setMask
    | killAgain | exit => simp [ended, hpc] at he

lemma raisable_handledOnce (hc : e.action.sa_handler = .caught) (hr : Raisable e) :
    HandledOnce e where
  aborts := quiet_aborts hr.quiet (Or.inl hc)
  atMost _ _ h := ((raising_inductive hc hr).reachable h).2.le_one
  atEnd _ _ h he := ((raising_inductive hc hr).reachable h).2.eq_one he

end Sufficient

section Necessary

lemma handlings_step {m : ℕ} (he : (system e).step s l = some s') (hm : m = handled n s l) :
    (handlings e).Reaches (s, n) (s', m) := by
  have hstep : (handlings e).step (s, n) l = some (s', m) := System.record_step.mpr ⟨he, hm⟩
  exact ⟨[l], .cons hstep (.nil _)⟩

lemma handlings_statement (hn : ended s = false) (hs : Settled s)
    (he : statement e s = some s') : (handlings e).Reaches (s, n) (s', n) := by
  have hstep : (system e).step s .statement = some s' := by
    simp only [system, step, hn, Bool.false_eq_true, if_false, if_pos hs]
    exact he
  exact handlings_step hstep rfl

lemma handlings_member (hc : e.action.sa_handler = .caught) :
    (handlings e).Reaches (start e, 0) (before e e.action .member, 0) := by
  have hquery : (handlings e).Reaches (start e, 0) (before e e.action .ignored, 0) :=
    handlings_statement rfl (start_settled e) rfl
  have hignored : (handlings e).Reaches (before e e.action .ignored, 0)
      (before e e.action .default, 0) :=
    handlings_statement rfl before_settled (by simp [statement, before, hc])
  have hdefault : (handlings e).Reaches (before e e.action .default, 0)
      (before e e.action .member, 0) :=
    handlings_statement rfl before_settled (by simp [statement, before, hc])
  exact (hquery.trans hignored).trans hdefault

lemma blocked_skips (hc : e.action.sa_handler = .caught) (hm : SIGABRT ∉ e.action.sa_mask)
    (hb : SIGABRT ∈ e.signals.blocked) :
    ∃ s, (handlings e).Reachable (s, 0) ∧ ended s = true := by
  let sa : Sigaction := { e.action with sa_handler := .SIG_DFL }
  let t : State := { raised e e.action with sa := sa, action := sa, pc := .setMask }
  let u : State := { t with signals := t.signals.setMask e.action.sa_mask, pc := .killAgain }
  have hs : Settled (raised e e.action) := raised_settled hb
  have hmember : (handlings e).Reaches (before e e.action .member, 0)
      (before e e.action .kill, 0) :=
    handlings_statement rfl before_settled (by simp [statement, before, hm])
  have hkill : (handlings e).Reaches (before e e.action .kill, 0) (raised e e.action, 0) :=
    handlings_statement rfl before_settled rfl
  have hflush : (handlings e).Reaches (raised e e.action, 0)
      ({ raised e e.action with pc := .restore }, 0) := handlings_statement rfl hs rfl
  have hrestore : (handlings e).Reaches ({ raised e e.action with pc := .restore }, 0) (t, 0) :=
    handlings_statement rfl hs rfl
  have hmask : (handlings e).Reaches (t, 0) (u, 0) := handlings_statement rfl hs rfl
  obtain ⟨g, hg⟩ : ∃ g, u.signals.take SIGABRT = some g :=
    ⟨_, if_pos ⟨Signals.mem_send.mpr (Or.inl rfl), hm⟩⟩
  have hdeliver : (system e).step u (.deliver SIGABRT) =
      some { u with signals := g, pc := .ended (.killed SIGABRT) } := by
    simp only [system, step, deliver, hg, Option.map_some]
    rfl
  have hlast : (handlings e).Reaches (u, 0)
      ({ u with signals := g, pc := .ended (.killed SIGABRT) }, 0) :=
    handlings_step hdeliver rfl
  have hstart : (handlings e).Reachable (start e, 0) := .initial ⟨rfl, rfl⟩
  exact ⟨_, (((((((hstart.reaches (handlings_member hc)).reaches hmember).reaches hkill).reaches
    hflush).reaches hrestore).reaches hmask).reaches hlast), rfl⟩

lemma handler_runs (hn : ended s = false) (hv : s.saved = none)
    (hc : s.action.sa_handler = .caught) (hd : s.signals.Deliverable SIGABRT) :
    (handlings e).Reaches (s, n)
      ({ s with signals := ⟨s.signals.pending.erase SIGABRT, s.signals.blocked⟩ }, n + 1) := by
  obtain ⟨g, hg⟩ : ∃ g, s.signals.take SIGABRT = some g := ⟨_, if_pos hd⟩
  obtain ⟨-, hpending, hblocked⟩ := Signals.take_eq_some.mp hg
  let t : State := { s with
    signals := g.enter SIGABRT s.action.sa_mask
    saved := some g.blocked }
  have hdeliver : (system e).step s (.deliver SIGABRT) = some t := by
    simp only [system, step, hn, deliver, hg, Option.map_some, hc]
    rfl
  have hreturn : (system e).step t (.handlerReturns none) =
      some { s with signals := ⟨s.signals.pending.erase SIGABRT, s.signals.blocked⟩ } := by
    have hend : ended t = false := hn
    simp only [system, step, hend, handlerReturns, Bool.false_eq_true, if_false]
    change some _ = some _
    rw [← hpending, ← hblocked, ← hv]
    rfl
  have hcount : n + 1 = handled n s (.deliver SIGABRT) := by simp [handled, hc]
  exact (handlings_step hdeliver hcount).trans (handlings_step hreturn rfl)

lemma drains (hn : ended s = false) (hv : s.saved = none)
    (hq : ∀ x, s.signals.Deliverable x → x ≠ SIGABRT ∧ e.fatal x = false) :
    ∃ pending, pending ⊆ s.signals.pending ∧
      Settled { s with signals := ⟨pending, s.signals.blocked⟩ } ∧
      (handlings e).Reaches (s, n) ({ s with signals := ⟨pending, s.signals.blocked⟩ }, n) := by
  induction hcard : s.signals.pending.card generalizing s with
  | zero =>
    have hempty : s.signals.pending = ∅ := Finset.card_eq_zero.mp hcard
    refine ⟨s.signals.pending, subset_rfl, ⟨hv, fun x hx => ?_⟩, .refl⟩
    rw [hempty] at hx
    cases hx
  | succ m ih =>
    by_cases hs : Settled s
    · exact ⟨s.signals.pending, subset_rfl, hs, .refl⟩
    · obtain ⟨x, hx, hb⟩ : ∃ x ∈ s.signals.pending, x ∉ s.signals.blocked := by
        simpa [Settled, hv] using hs
      obtain ⟨hne, hfatal⟩ := hq x ⟨hx, hb⟩
      let g : Signals Signal := ⟨s.signals.pending.erase x, s.signals.blocked⟩
      have hg : s.signals.take x = some g := if_pos ⟨hx, hb⟩
      have hstep : (system e).step s (.deliver x) = some { s with signals := g } := by
        simp [system, step, hn, deliver, hg, hne, hfatal]
      have hfirst : (handlings e).Reaches (s, n) ({ s with signals := g }, n) :=
        handlings_step hstep (by simp [handled, hne])
      obtain ⟨pending, hsub, hsettled, hr⟩ := ih (s := { s with signals := g }) hn hv
        (fun y hy => hq y ⟨Finset.mem_of_mem_erase hy.1, hy.2⟩)
        (by simp [g, Finset.card_erase_of_mem hx, hcard])
      exact ⟨pending, hsub.trans (Finset.erase_subset _ _), hsettled, hfirst.trans hr⟩

/-- A `SIGABRT` that waits is handled when the mask is set, and once more after the `kill`. -/
lemma pending_repeats (hc : e.action.sa_handler = .caught) (hq : Quiet e)
    (hm : SIGABRT ∈ e.action.sa_mask) (hp : SIGABRT ∈ e.signals.pending) :
    ∃ s, (handlings e).Reachable (s, 2) := by
  let mask := e.action.sa_mask.erase SIGABRT
  let sa : Sigaction := { e.action with sa_mask := mask }
  let t : State := { before e e.action .unblock with sa := sa }
  let u : State := { t with signals := e.signals.setMask mask, pc := .kill }
  have hout : SIGABRT ∉ mask := Finset.notMem_erase SIGABRT _
  have hmember : (handlings e).Reaches (before e e.action .member, 0) (t, 0) :=
    handlings_statement rfl before_settled (by simp [statement, before, hm, t, sa, mask])
  have hunblock : (handlings e).Reaches (t, 0) (u, 0) :=
    handlings_statement rfl ⟨rfl, fun _ hy => e.blocked hy⟩ rfl
  have hfirst := handler_runs (e := e) (s := u) (n := 0) rfl rfl hc ⟨hp, hout⟩
  obtain ⟨pending, -, hsettled, hdrain⟩ := drains (e := e) (n := 1)
    (s := { u with signals := ⟨u.signals.pending.erase SIGABRT, mask⟩ }) rfl rfl (by
      rintro x ⟨hx, hb⟩
      obtain ⟨hne, hx⟩ := Finset.mem_erase.mp hx
      refine ⟨hne, Bool.eq_false_iff.mpr fun hf => hb ?_⟩
      exact Finset.mem_erase.mpr ⟨hne, hq x hx hne hf⟩)
  have hkill := handlings_statement (e := e) (n := 1) rfl hsettled rfl
  have hsecond := handler_runs (e := e) (n := 1)
    (s := { u with signals := Signals.send ⟨pending, mask⟩ SIGABRT, pc := .flushAgain })
    rfl rfl hc ⟨Signals.mem_send.mpr (Or.inl rfl), hout⟩
  have hstart : (handlings e).Reachable (start e, 0) := .initial ⟨rfl, rfl⟩
  exact ⟨_, (((((hstart.reaches (handlings_member hc)).reaches hmember).reaches
    hunblock).reaches hfirst).reaches hdrain).reaches hkill |>.reaches hsecond⟩

lemma handledOnce_raisable (hc : e.action.sa_handler = .caught) (h : HandledOnce e) :
    Raisable e := by
  have hskip : ¬ (SIGABRT ∉ e.action.sa_mask ∧ SIGABRT ∈ e.signals.blocked) := by
    rintro ⟨hm, hb⟩
    obtain ⟨s, hr, hend⟩ := blocked_skips hc hm hb
    exact absurd (h.atEnd s 0 hr hend) Nat.zero_ne_one
  have hquiet : Quiet e := by
    intro x hx hne hfatal
    by_contra hm
    have hkills : ¬ FirstKills e := fun hk => hk.handler hc
    obtain ⟨s, hr, hend⟩ := loud_fails (Or.inl hc) hkills hx hne hfatal hm
    have hkilled := h.aborts.killed s _ ⟨start e, rfl, hr⟩ hend
    exact hne (Outcome.killed.inj hkilled)
  refine ⟨hquiet, fun hp => ?_, ?_⟩
  · by_cases hm : SIGABRT ∈ e.action.sa_mask
    · obtain ⟨s, hr⟩ := pending_repeats hc hquiet hm hp
      have htwo := h.atMost s 2 hr
      omega
    · exact hskip ⟨hm, e.blocked hp⟩
  · by_contra hn
    obtain ⟨hm, hb⟩ := not_or.mp hn
    exact hskip ⟨hm, not_not.mp hb⟩

end Necessary

/-- The mask of the action decides whether `SIGABRT` is let through, and the process's own
mask whether it had to be. -/
theorem handledOnce_iff (hc : e.action.sa_handler = .caught) : HandledOnce e ↔ Raisable e :=
  ⟨handledOnce_raisable hc, raisable_handledOnce hc⟩

/-- A process whose mask is `mask`, with no signal waiting and a handler of `SIGABRT` that
blocks nothing else. -/
def catching (mask : Finset Signal) : Entry where
  signals := ⟨∅, mask⟩
  action := ⟨.caught, ∅⟩
  flushed := 0
  fatal _ := false
  settled _ hx := by cases hx.1

lemma catching_raisable : Raisable (catching ∅) where
  quiet _ hx := by cases hx
  pending := Finset.notMem_empty _
  unblocked := Or.inr (Finset.notMem_empty _)

theorem catching_handledOnce : (catching ∅).action.sa_handler = .caught ∧
    HandledOnce (catching ∅) :=
  ⟨rfl, (handledOnce_iff rfl).mpr catching_raisable⟩

/-- `SIGABRT` is blocked by the process and not by its action: the handler never runs. -/
theorem abort_skips_handler : (catching {SIGABRT}).action.sa_handler = .caught ∧
    ¬ HandledOnce (catching {SIGABRT}) := by
  refine ⟨rfl, fun h => ?_⟩
  obtain ⟨s, hr, hend⟩ := blocked_skips (e := catching {SIGABRT}) rfl (Finset.notMem_empty _)
    (Finset.mem_singleton_self _)
  exact absurd (h.atEnd s 0 hr hend) Nat.zero_ne_one

end UnixProgramming.Abort
