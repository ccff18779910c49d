import UnixProgramming.Abort.Model

/-! The processes that `abort` ends by `SIGABRT`, whatever the order in which pending
signals are delivered. -/

namespace UnixProgramming.Abort

open Library Library.Transition

variable {e : Entry} {s s' : State} {x : Signal} {l : Label}

/-- `abort` has no way back to its caller: each run goes on to an end, and the end is
by `SIGABRT`. -/
structure Aborts (e : Entry) : Prop where
  killed : ∀ s o, (system e).Reachable s → s.pc = .ended o → o = .killed SIGABRT
  proceeds : ∀ s, (system e).Reachable s → ended s = false → ∃ l s', step e s l = some s'
  bounded : ∃ n, ∀ ls s, (system e).Run (start e) ls s → ls.length ≤ n

def Quiet (e : Entry) : Prop :=
  ∀ x ∈ e.signals.pending, x ≠ SIGABRT → e.fatal x = true → x ∈ e.action.sa_mask

/-- The first `kill` ends the process before any mask is set. -/
structure FirstKills (e : Entry) : Prop where
  handler : e.action.sa_handler ≠ .caught
  unblocked : SIGABRT ∉ e.signals.blocked
  unmasked : SIGABRT ∉ e.action.sa_mask

section Progress

lemma exists_step (h : ended s = false) : ∃ l s', step e s l = some s' := by
  by_cases hs : Settled s
  · refine ⟨.statement, ?_⟩
    simp only [step, h, Bool.false_eq_true, if_false, if_pos hs]
    cases hp : s.pc with
    | ended o => simp [ended, hp] at h
    | ignored | member =>
      simp only [statement, hp]
      split_ifs <;> exact ⟨_, rfl⟩
    | query | default | flush | unblock | kill | flushAgain | restore | setMask | killAgain
      | exit => simp [statement, hp]
  · cases hv : s.saved with
    | some mask =>
      exact ⟨.handlerReturns none, by simp [step, h, handlerReturns, hv]⟩
    | none =>
      obtain ⟨x, hx, hb⟩ : ∃ x ∈ s.signals.pending, x ∉ s.signals.blocked := by
        simpa [Settled, hv] using hs
      obtain ⟨g, hg⟩ : ∃ g, s.signals.take x = some g := ⟨_, if_pos ⟨hx, hb⟩⟩
      exact ⟨.deliver x, by simp [step, h, deliver, hg]⟩

def Pc.rank : Pc → ℕ
  | .query => 12
  | .ignored => 11
  | .default => 10
  | .flush => 9
  | .member => 8
  | .unblock => 7
  | .kill => 6
  | .flushAgain => 5
  | .restore => 4
  | .setMask => 3
  | .killAgain => 2
  | .exit => 1
  | .ended _ => 0

def remaining (s : State) : ℕ :=
  3 * s.pc.rank + 2 * s.signals.pending.card + s.saved.elim 0 fun _ => 1

lemma send_card (g : Signals Signal) : (g.send x).pending.card ≤ g.pending.card + 1 :=
  Finset.card_insert_le x g.pending

lemma statement_remaining (he : statement e s = some s') : remaining s' < remaining s := by
  cases hp : s.pc with
  | query | unblock | flushAgain | restore | setMask | exit =>
    simp only [statement, hp, Option.some.injEq] at he
    subst he
    simp [remaining, hp, Pc.rank]
  | ignored | member =>
    simp only [statement, hp] at he
    split_ifs at he <;> (obtain rfl := Option.some.inj he; simp [remaining, hp, Pc.rank])
  | default | flush =>
    simp only [statement, hp, Option.some.injEq] at he
    subst he
    simp only [remaining, hp]
    split_ifs <;> simp [Pc.rank]
  | kill | killAgain =>
    simp only [statement, hp, Option.some.injEq] at he
    subst he
    have hcard := send_card (x := SIGABRT) s.signals
    simp only [remaining, hp, Pc.rank]
    omega
  | ended o => simp [statement, hp] at he

lemma deliver_remaining (he : deliver e s x = some s') : remaining s' < remaining s := by
  obtain ⟨g, hg, rfl⟩ := Option.map_eq_some_iff.mp he
  obtain ⟨hd, hp, -⟩ := Signals.take_eq_some.mp hg
  have hcard : g.pending.card + 1 = s.signals.pending.card := by
    rw [hp, Finset.card_erase_add_one hd.1]
  split_ifs
  · cases s.action.sa_handler with
    | SIG_DFL | SIG_IGN =>
      simp only [remaining, Pc.rank]
      omega
    | caught =>
      simp only [remaining, Signals.enter_pending, Option.elim_some]
      omega
  · simp only [remaining, Pc.rank]
    omega
  · simp only [remaining]
    omega

lemma step_remaining (he : step e s l = some s') : remaining s' < remaining s := by
  simp only [step, Option.ite_none_left_eq_some] at he
  obtain ⟨-, he⟩ := he
  cases l with
  | statement =>
    simp only [Option.ite_none_right_eq_some] at he
    exact statement_remaining he.2
  | deliver x => exact deliver_remaining he
  | handlerReturns installed =>
    obtain ⟨mask, hv, rfl⟩ := Option.map_eq_some_iff.mp he
    simp [remaining, hv]

lemma aborts_of_killed
    (h : ∀ s o, (system e).Reachable s → s.pc = .ended o → o = .killed SIGABRT) : Aborts e where
  killed := h
  proceeds _ _ hs := exists_step hs
  bounded := by
    refine ⟨remaining (start e), fun ls s hr => ?_⟩
    have hlen := hr.length_le (μ := remaining) fun _ _ _ he => step_remaining he
    omega

end Progress

section Sufficient

def Masked (e : Entry) (s : State) : Prop :=
  SIGABRT ∉ s.sa.sa_mask ∧ ∀ x, x ≠ SIGABRT → (x ∈ s.sa.sa_mask ↔ x ∈ e.action.sa_mask)

def Point (e : Entry) (s : State) : Prop :=
  match s.pc with
  | .query => s = start e
  | .ignored => s.sa = e.action
  | .default => s.sa.sa_mask = e.action.sa_mask ∧
      (s.sa.sa_handler = .SIG_DFL → e.action.sa_handler ≠ .caught)
  | .flush => s.sa.sa_mask = e.action.sa_mask ∧ e.action.sa_handler ≠ .caught
  | .member => s.sa.sa_mask = e.action.sa_mask
  | .unblock | .kill | .flushAgain | .restore => Masked e s
  | .setMask => Masked e s ∧ s.action.sa_handler = .SIG_DFL ∧ s.saved = none
  | .killAgain => SIGABRT ∉ s.signals.blocked ∧ s.action.sa_handler = .SIG_DFL ∧ s.saved = none
  | .exit => (SIGABRT ∈ s.signals.pending ∧ SIGABRT ∉ s.signals.blocked) ∧
      s.action.sa_handler = .SIG_DFL ∧ s.saved = none
  | .ended o => o = .killed SIGABRT

structure Contained (e : Entry) (s : State) : Prop where
  point : Point e s
  pending : ∀ x ∈ s.signals.pending, x ≠ SIGABRT → x ∈ e.signals.pending
  blocked : ∀ x ∈ s.signals.pending, x ≠ SIGABRT → e.fatal x = true →
    x ∈ s.signals.blocked ∧ ∀ mask ∈ s.saved, x ∈ mask

lemma Entry.blocked (e : Entry) (hx : x ∈ e.signals.pending) : x ∈ e.signals.blocked := by
  by_contra hb
  exact e.settled x ⟨hx, hb⟩

lemma start_settled (e : Entry) : Settled (start e) :=
  ⟨rfl, fun _ hx => e.blocked hx⟩

lemma start_contained (e : Entry) : Contained e (start e) where
  point := rfl
  pending _ hx _ := hx
  blocked x hx _ _ := ⟨e.blocked hx, fun _ hm => by cases hm⟩

lemma Contained.goto (h : Contained e s) {sa action : Sigaction} {pc : Pc}
    (hp : Point e { s with sa := sa, action := action, pc := pc }) :
    Contained e { s with sa := sa, action := action, pc := pc } :=
  ⟨hp, h.pending, h.blocked⟩

lemma Contained.mask (hq : Quiet e) (h : Contained e s) (hm : Masked e s) (hv : s.saved = none)
    {pc : Pc} (hp : Point e { s with signals := s.signals.setMask s.sa.sa_mask, pc := pc }) :
    Contained e { s with signals := s.signals.setMask s.sa.sa_mask, pc := pc } where
  point := hp
  pending := h.pending
  blocked x hx hne hf := by
    refine ⟨(hm.2 x hne).mpr (hq x (h.pending x hx hne) hne hf), fun mask hmask => ?_⟩
    rw [hv] at hmask
    cases hmask

lemma Contained.send (h : Contained e s) {pc : Pc}
    (hp : Point e { s with signals := s.signals.send SIGABRT, pc := pc }) :
    Contained e { s with signals := s.signals.send SIGABRT, pc := pc } where
  point := hp
  pending x hx hne := h.pending x ((Signals.mem_send.mp hx).resolve_left hne) hne
  blocked x hx hne hf := h.blocked x ((Signals.mem_send.mp hx).resolve_left hne) hne hf

lemma statement_contained (hq : Quiet e) (hf : e.action.sa_handler = .caught ∨ e.flushed = 0)
    (h : Contained e s) (hs : Settled s) (he : statement e s = some s') : Contained e s' := by
  have hp := h.point
  cases hpc : s.pc with
  | query =>
    simp only [Point, hpc] at hp
    simp only [statement, hpc, Option.some.injEq] at he
    subst he
    apply h.goto
    rw [hp]
    rfl
  | ignored =>
    simp only [Point, hpc] at hp
    simp only [statement, hpc] at he
    split_ifs at he with hign <;> obtain rfl := Option.some.inj he
    · apply h.goto
      rw [hp] at hign
      exact ⟨by rw [hp], fun _ => by simp [hign]⟩
    · apply h.goto
      refine ⟨by rw [hp], fun hd hc => ?_⟩
      have hdfl : s.sa.sa_handler = .SIG_DFL := hd
      rw [← hp, hdfl] at hc
      cases hc
  | default =>
    simp only [Point, hpc] at hp
    simp only [statement, hpc, Option.some.injEq] at he
    subst he
    apply h.goto
    split_ifs with hd
    · exact ⟨hp.1, hp.2 hd⟩
    · exact hp.1
  | flush =>
    simp only [Point, hpc] at hp
    have hzero : e.flushed = 0 := hf.resolve_left hp.2
    simp only [statement, hpc, hzero, ne_eq, not_true_eq_false, if_false, Option.some.injEq] at he
    subst he
    apply h.goto
    exact hp.1
  | member =>
    simp only [Point, hpc] at hp
    simp only [statement, hpc] at he
    split_ifs at he with hmem <;> obtain rfl := Option.some.inj he
    · apply h.goto
      exact ⟨by simp, fun x hne => by simp [hp, hne]⟩
    · apply h.goto
      exact ⟨hmem, fun x _ => by simp [hp]⟩
  | unblock =>
    simp only [Point, hpc] at hp
    simp only [statement, hpc, Option.some.injEq] at he
    subst he
    exact h.mask hq hp hs.1 hp
  | kill =>
    simp only [Point, hpc] at hp
    simp only [statement, hpc, Option.some.injEq] at he
    subst he
    exact h.send hp
  | flushAgain =>
    simp only [Point, hpc] at hp
    simp only [statement, hpc, Option.some.injEq] at he
    subst he
    exact h.goto hp
  | restore =>
    simp only [Point, hpc] at hp
    simp only [statement, hpc, Option.some.injEq] at he
    subst he
    exact h.goto ⟨hp, rfl, hs.1⟩
  | setMask =>
    simp only [Point, hpc] at hp
    simp only [statement, hpc, Option.some.injEq] at he
    subst he
    exact h.mask hq hp.1 hs.1 ⟨hp.1.1, hp.2⟩
  | killAgain =>
    simp only [Point, hpc] at hp
    simp only [statement, hpc, Option.some.injEq] at he
    subst he
    exact h.send ⟨⟨Signals.mem_send.mpr (Or.inl rfl), hp.1⟩, hp.2⟩
  | exit =>
    simp only [Point, hpc] at hp
    exact absurd (hs.2 SIGABRT hp.1.1) hp.1.2
  | ended o => simp [statement, hpc] at he

lemma Point.taken {g : Signals Signal} (h : Contained e s) (hg : s.signals.take x = some g)
    (hx : x ≠ SIGABRT) : Point e { s with signals := g } := by
  obtain ⟨hd, -, hb⟩ := Signals.take_eq_some.mp hg
  have hp := h.point
  cases hpc : s.pc with
  | query =>
    simp only [Point, hpc] at hp
    rw [hp] at hd
    exact absurd hd (e.settled x)
  | ignored | default | flush | member | unblock | kill | flushAgain | restore | setMask
    | ended o =>
    simp only [Point, hpc, Masked] at hp ⊢
    exact hp
  | killAgain =>
    simp only [Point, hpc] at hp ⊢
    exact ⟨hb ▸ hp.1, hp.2⟩
  | exit =>
    simp only [Point, hpc] at hp ⊢
    exact ⟨⟨(Signals.take_pending hg hx.symm).mpr hp.1.1, hb ▸ hp.1.2⟩, hp.2⟩

lemma Point.handled {g : Signals Signal} {saved : Option (Finset Signal)} (h : Contained e s)
    (hd : s.signals.Deliverable SIGABRT) (ha : s.action.sa_handler ≠ .SIG_DFL) :
    Point e { s with signals := g, saved := saved } := by
  have hp := h.point
  cases hpc : s.pc with
  | query =>
    simp only [Point, hpc] at hp
    rw [hp] at hd
    exact absurd hd (e.settled SIGABRT)
  | ignored | default | flush | member | unblock | kill | flushAgain | restore | ended o =>
    simp only [Point, hpc, Masked] at hp ⊢
    exact hp
  | setMask | killAgain | exit =>
    simp only [Point, hpc] at hp
    exact absurd hp.2.1 ha

lemma Contained.pending_of {g : Signals Signal} (h : Contained e s)
    (hg : s.signals.take x = some g) : ∀ y ∈ g.pending, y ≠ SIGABRT → y ∈ e.signals.pending := by
  obtain ⟨-, hp, -⟩ := Signals.take_eq_some.mp hg
  intro y hy hne
  rw [hp] at hy
  exact h.pending y (Finset.mem_of_mem_erase hy) hne

lemma Contained.blocked_of {g : Signals Signal} (h : Contained e s)
    (hg : s.signals.take x = some g) : ∀ y ∈ g.pending, y ≠ SIGABRT → e.fatal y = true →
      y ∈ g.blocked ∧ ∀ mask ∈ s.saved, y ∈ mask := by
  obtain ⟨-, hp, hb⟩ := Signals.take_eq_some.mp hg
  intro y hy hne hf
  rw [hp] at hy
  rw [hb]
  exact h.blocked y (Finset.mem_of_mem_erase hy) hne hf

lemma deliver_contained (h : Contained e s) (he : deliver e s x = some s') : Contained e s' := by
  obtain ⟨g, hg, rfl⟩ := Option.map_eq_some_iff.mp he
  obtain ⟨hd, -, -⟩ := Signals.take_eq_some.mp hg
  have hpending := h.pending_of hg
  have hblocked := h.blocked_of hg
  split_ifs with hx hf
  · subst hx
    cases ha : s.action.sa_handler with
    | SIG_DFL => exact ⟨rfl, hpending, hblocked⟩
    | SIG_IGN => exact ⟨Point.handled h hd (by simp [ha]), hpending, hblocked⟩
    | caught =>
      refine ⟨Point.handled h hd (by simp [ha]), hpending, fun y hy hne hfy => ?_⟩
      have hin := (hblocked y hy hne hfy).1
      refine ⟨Finset.mem_union_left _ hin, fun mask hmask => ?_⟩
      obtain rfl := Option.some.inj hmask
      exact hin
  · exact absurd (h.blocked x hd.1 hx hf).1 hd.2
  · exact ⟨Point.taken h hg hx, hpending, hblocked⟩

lemma handlerReturns_contained {installed : Option Sigaction} (h : Contained e s)
    (he : handlerReturns s installed = some s') : Contained e s' := by
  obtain ⟨mask, hv, rfl⟩ := Option.map_eq_some_iff.mp he
  refine ⟨?_, h.pending, fun y hy hne hf => ⟨(h.blocked y hy hne hf).2 mask hv, ?_⟩⟩
  · have hp := h.point
    cases hpc : s.pc with
    | query =>
      simp only [Point, hpc] at hp
      rw [hp] at hv
      cases hv
    | ignored | default | flush | member | unblock | kill | flushAgain | restore | ended o =>
      simp only [Point, hpc, Masked] at hp ⊢
      exact hp
    | setMask | killAgain | exit =>
      simp only [Point, hpc, hv] at hp
      cases hp.2.2
  · intro mask hm
    cases hm

lemma contained_inductive (hq : Quiet e) (hf : e.action.sa_handler = .caught ∨ e.flushed = 0) :
    (system e).Inductive (Contained e) where
  initial := by
    rintro _ rfl
    exact start_contained e
  step s l s' h he := by
    simp only [system, step, Option.ite_none_left_eq_some] at he
    obtain ⟨-, he⟩ := he
    cases l with
    | statement =>
      simp only [Option.ite_none_right_eq_some] at he
      exact statement_contained hq hf h he.1 he.2
    | deliver x => exact deliver_contained h he
    | handlerReturns installed => exact handlerReturns_contained h he

lemma quiet_aborts (hq : Quiet e) (hf : e.action.sa_handler = .caught ∨ e.flushed = 0) :
    Aborts e := by
  apply aborts_of_killed
  intro s o hr ho
  have hp := ((contained_inductive hq hf).reachable hr).point
  simp only [Point, ho] at hp
  exact hp

def Direct (e : Entry) (s : State) : Prop :=
  match s.pc with
  | .query => s = start e
  | .ignored => (s.signals = e.signals ∧ s.saved = none) ∧ s.action = e.action ∧ s.sa = e.action
  | .default | .flush | .member => (s.signals = e.signals ∧ s.saved = none) ∧
      s.action.sa_handler = .SIG_DFL ∧ s.sa = s.action ∧ s.sa.sa_mask = e.action.sa_mask
  | .kill => (s.signals = e.signals ∧ s.saved = none) ∧ s.action.sa_handler = .SIG_DFL
  | .flushAgain => (s.signals = e.signals.send SIGABRT ∧ s.saved = none) ∧
      s.action.sa_handler = .SIG_DFL
  | .ended o => o = .killed SIGABRT
  | .unblock | .restore | .setMask | .killAgain | .exit => False

lemma statement_direct (hk : FirstKills e) (hf : e.flushed = 0) (h : Direct e s)
    (hs : Settled s) (he : statement e s = some s') : Direct e s' := by
  cases hpc : s.pc with
  | query =>
    simp only [Direct, hpc] at h
    simp only [statement, hpc, Option.some.injEq] at he
    subst he
    rw [h]
    exact ⟨⟨rfl, rfl⟩, rfl, rfl⟩
  | ignored =>
    simp only [Direct, hpc] at h
    obtain ⟨hsig, ha, hsa⟩ := h
    simp only [statement, hpc] at he
    split_ifs at he with hign <;> obtain rfl := Option.some.inj he
    · exact ⟨hsig, rfl, rfl, by rw [hsa]⟩
    · have hdfl : s.action.sa_handler = .SIG_DFL := by
        have hne := hk.handler
        rw [hsa] at hign
        rw [ha]
        cases hh : e.action.sa_handler with
        | SIG_DFL => rfl
        | SIG_IGN => exact absurd hh hign
        | caught => exact absurd hh hne
      exact ⟨hsig, hdfl, hsa.trans ha.symm, by rw [hsa]⟩
  | default =>
    simp only [Direct, hpc] at h
    obtain ⟨hsig, hdfl, hsa, hmask⟩ := h
    simp only [statement, hpc, hsa, hdfl, if_true, Option.some.injEq] at he
    subst he
    exact ⟨hsig, hdfl, rfl, hsa ▸ hmask⟩
  | flush =>
    simp only [Direct, hpc] at h
    simp only [statement, hpc, hf, ne_eq, not_true_eq_false, if_false, Option.some.injEq] at he
    subst he
    exact h
  | member =>
    simp only [Direct, hpc] at h
    obtain ⟨hsig, hdfl, -, hmask⟩ := h
    simp only [statement, hpc, hmask, if_neg hk.unmasked, Option.some.injEq] at he
    subst he
    exact ⟨hsig, hdfl⟩
  | kill =>
    simp only [Direct, hpc] at h
    obtain ⟨⟨hsig, hv⟩, hdfl⟩ := h
    simp only [statement, hpc, Option.some.injEq] at he
    subst he
    exact ⟨⟨by rw [hsig], hv⟩, hdfl⟩
  | flushAgain =>
    simp only [Direct, hpc] at h
    obtain ⟨⟨hsig, -⟩, -⟩ := h
    have hin := hs.2 SIGABRT (by rw [hsig]; exact Signals.mem_send.mpr (Or.inl rfl))
    rw [hsig] at hin
    exact absurd hin hk.unblocked
  | unblock | restore | setMask | killAgain | exit =>
    simp only [Direct, hpc] at h
  | ended o => simp [statement, hpc] at he

lemma Direct.saved (h : Direct e s) (hn : ended s = false) : s.saved = none := by
  cases hpc : s.pc with
  | query =>
    simp only [Direct, hpc] at h
    rw [h]
    rfl
  | ignored | default | flush | member | kill | flushAgain =>
    simp only [Direct, hpc] at h
    exact h.1.2
  | unblock | restore | setMask | killAgain | exit => simp only [Direct, hpc] at h
  | ended o => simp [ended, hpc] at hn

lemma deliver_direct (h : Direct e s) (hn : ended s = false) (he : deliver e s x = some s') :
    Direct e s' := by
  obtain ⟨g, hg, rfl⟩ := Option.map_eq_some_iff.mp he
  obtain ⟨hd, -, -⟩ := Signals.take_eq_some.mp hg
  cases hpc : s.pc with
  | query =>
    simp only [Direct, hpc] at h
    rw [h] at hd
    exact absurd hd (e.settled x)
  | ignored | default | flush | member | kill =>
    simp only [Direct, hpc] at h
    rw [h.1.1] at hd
    exact absurd hd (e.settled x)
  | flushAgain =>
    simp only [Direct, hpc] at h
    obtain ⟨⟨hsig, -⟩, hdfl⟩ := h
    obtain ⟨hp, hb⟩ := hd
    rw [hsig] at hp hb
    obtain rfl : x = SIGABRT := by
      rcases Signals.mem_send.mp hp with hx | hx
      · exact hx
      · exact absurd ⟨hx, hb⟩ (e.settled x)
    simp only [if_true, hdfl]
    rfl
  | unblock | restore | setMask | killAgain | exit => simp only [Direct, hpc] at h
  | ended o => simp [ended, hpc] at hn

lemma direct_inductive (hk : FirstKills e) (hf : e.flushed = 0) :
    (system e).Inductive (Direct e) where
  initial := by
    rintro _ rfl
    rfl
  step s l s' h he := by
    simp only [system, step, Option.ite_none_left_eq_some, Bool.not_eq_true] at he
    obtain ⟨hn, he⟩ := he
    cases l with
    | statement =>
      simp only [Option.ite_none_right_eq_some] at he
      exact statement_direct hk hf h he.1 he.2
    | deliver x => exact deliver_direct h hn he
    | handlerReturns installed => simp [handlerReturns, h.saved hn] at he

lemma firstKills_aborts (hk : FirstKills e) (hf : e.flushed = 0) : Aborts e := by
  apply aborts_of_killed
  intro s o hr ho
  have hd := (direct_inductive hk hf).reachable hr
  simp only [Direct, ho] at hd
  exact hd

end Sufficient

section Necessary

lemma reaches_statement (hn : ended s = false) (hs : Settled s) (he : statement e s = some s') :
    (system e).Reaches s s' := by
  have hstep : (system e).step s .statement = some s' := by
    simp only [system, step, hn, Bool.false_eq_true, if_false, if_pos hs]
    exact he
  exact ⟨[.statement], .cons hstep (.nil s')⟩

def before (e : Entry) (action : Sigaction) (pc : Pc) : State where
  signals := e.signals
  action := action
  sa := action
  saved := none
  pc := pc

lemma before_settled {action : Sigaction} {pc : Pc} : Settled (before e action pc) :=
  ⟨rfl, fun _ hx => e.blocked hx⟩

lemma reaches_default (e : Entry) : ∃ action : Sigaction,
    (system e).Reaches (start e) (before e action .default) ∧
      action.sa_mask = e.action.sa_mask ∧
      (action.sa_handler = .SIG_DFL ↔ e.action.sa_handler ≠ .caught) ∧
      (e.action.sa_handler = .caught → action = e.action) := by
  have hfirst : (system e).Reaches (start e) (before e e.action .ignored) :=
    reaches_statement rfl (start_settled e) rfl
  by_cases hign : e.action.sa_handler = .SIG_IGN
  · refine ⟨{ e.action with sa_handler := .SIG_DFL }, hfirst.trans ?_, rfl, by simp [hign],
      by simp [hign]⟩
    exact reaches_statement rfl before_settled (by simp [statement, before, hign])
  · refine ⟨e.action, hfirst.trans ?_, rfl, ?_, fun _ => rfl⟩
    · exact reaches_statement rfl before_settled (by simp [statement, before, hign])
    · cases hh : e.action.sa_handler with
      | SIG_DFL | caught => simp
      | SIG_IGN => exact absurd hh hign

lemma reaches_flush (hh : e.action.sa_handler ≠ .caught) : ∃ action : Sigaction,
    (system e).Reaches (start e) (before e action .flush) ∧
      action.sa_mask = e.action.sa_mask := by
  obtain ⟨action, hr, hmask, hdfl, -⟩ := reaches_default e
  have hhandler := hdfl.mpr hh
  refine ⟨action, hr.trans ?_, hmask⟩
  exact reaches_statement rfl before_settled (by simp [statement, before, hhandler])

lemma flush_fails (hh : e.action.sa_handler ≠ .caught) (hf : e.flushed ≠ 0) : ¬ Aborts e := by
  intro ha
  obtain ⟨action, hr, -⟩ := reaches_flush hh
  have hlast : statement e (before e action .flush) =
      some (before e action (.ended (.exited EXIT_FAILURE))) := by simp [statement, before, hf]
  have hreach : (system e).Reaches (start e) (before e action (.ended (.exited EXIT_FAILURE))) :=
    hr.trans (reaches_statement rfl before_settled hlast)
  have hkilled := ha.killed _ _ ⟨start e, rfl, hreach⟩ rfl
  cases hkilled

lemma reaches_member (hf : e.action.sa_handler = .caught ∨ e.flushed = 0) :
    ∃ action : Sigaction, (system e).Reaches (start e) (before e action .member) ∧
      action.sa_mask = e.action.sa_mask ∧
      (e.action.sa_handler = .caught → action = e.action) := by
  by_cases hh : e.action.sa_handler = .caught
  · obtain ⟨action, hr, hmask, -, hsame⟩ := reaches_default e
    obtain rfl := hsame hh
    refine ⟨e.action, hr.trans ?_, rfl, fun _ => rfl⟩
    exact reaches_statement rfl before_settled (by simp [statement, before, hh])
  · obtain ⟨action, hr, hmask⟩ := reaches_flush hh
    refine ⟨action, hr.trans ?_, hmask, fun hc => absurd hc hh⟩
    exact reaches_statement rfl before_settled
      (by simp [statement, before, hf.resolve_left hh])

lemma reaches_killed (hn : ended s = false) (hd : s.signals.Deliverable x) (hne : x ≠ SIGABRT)
    (hf : e.fatal x = true) : ∃ s', (system e).Reaches s s' ∧ s'.pc = .ended (.killed x) := by
  obtain ⟨g, hg⟩ : ∃ g, s.signals.take x = some g := ⟨_, if_pos hd⟩
  have hstep : (system e).step s (.deliver x) =
      some { s with signals := g, pc := .ended (.killed x) } := by
    simp [system, step, hn, deliver, hg, hne, hf]
  exact ⟨_, ⟨[.deliver x], .cons hstep (.nil _)⟩, rfl⟩

lemma setMask_kills (hpc : s.pc = .flushAgain) (hs : Settled s) (hx : x ∈ s.signals.pending)
    (hm : x ∉ s.sa.sa_mask) (hne : x ≠ SIGABRT) (hf : e.fatal x = true) :
    ∃ s', (system e).Reaches s s' ∧ s'.pc = .ended (.killed x) := by
  let sa : Sigaction := { s.sa with sa_handler := .SIG_DFL }
  let t : State := { s with sa := sa, action := sa, pc := .setMask }
  have hflush : (system e).Reaches s { s with pc := .restore } :=
    reaches_statement (by simp [ended, hpc]) hs (by simp [statement, hpc])
  have hrestore : (system e).Reaches { s with pc := .restore } t := reaches_statement rfl hs rfl
  have hmask : (system e).Reaches t
      { t with signals := t.signals.setMask s.sa.sa_mask, pc := .killAgain } :=
    reaches_statement rfl hs rfl
  obtain ⟨s', hr, hend⟩ := reaches_killed (e := e) (x := x)
    (s := { t with signals := t.signals.setMask s.sa.sa_mask, pc := .killAgain })
    rfl ⟨hx, hm⟩ hne hf
  exact ⟨s', ((hflush.trans hrestore).trans hmask).trans hr, hend⟩

lemma unblock_kills {action : Sigaction} (hmem : SIGABRT ∈ action.sa_mask)
    (hx : x ∈ e.signals.pending) (hm : x ∉ action.sa_mask) (hne : x ≠ SIGABRT)
    (hf : e.fatal x = true) :
    ∃ s, (system e).Reaches (before e action .member) s ∧ s.pc = .ended (.killed x) := by
  let sa : Sigaction := { action with sa_mask := action.sa_mask.erase SIGABRT }
  let t : State := { before e action .unblock with sa := sa }
  have hmember : (system e).Reaches (before e action .member) t :=
    reaches_statement rfl before_settled (by simp [statement, before, hmem, t, sa])
  have hunblock : (system e).Reaches t
      { t with signals := e.signals.setMask sa.sa_mask, pc := .kill } :=
    reaches_statement rfl ⟨rfl, fun _ hy => e.blocked hy⟩ rfl
  have hd : (e.signals.setMask sa.sa_mask).Deliverable x :=
    ⟨hx, fun hin => hm (Finset.mem_of_mem_erase hin)⟩
  obtain ⟨s, hlast, hend⟩ := reaches_killed (e := e)
    (s := { t with signals := e.signals.setMask sa.sa_mask, pc := .kill }) rfl hd hne hf
  exact ⟨s, (hmember.trans hunblock).trans hlast, hend⟩

def raised (e : Entry) (action : Sigaction) : State :=
  { before e action .flushAgain with signals := e.signals.send SIGABRT }

lemma reaches_raised {action : Sigaction} (hmem : SIGABRT ∉ action.sa_mask) :
    (system e).Reaches (before e action .member) (raised e action) := by
  have hmember : (system e).Reaches (before e action .member) (before e action .kill) :=
    reaches_statement rfl before_settled (by simp [statement, before, hmem])
  exact hmember.trans (reaches_statement rfl before_settled rfl)

lemma raised_settled {action : Sigaction} (hb : SIGABRT ∈ e.signals.blocked) :
    Settled (raised e action) := by
  refine ⟨rfl, fun y hy => ?_⟩
  rcases Signals.mem_send.mp hy with rfl | hy
  · exact hb
  · exact e.blocked hy

lemma raised_handled {action : Sigaction} (hh : action.sa_handler = .caught)
    (hb : SIGABRT ∉ e.signals.blocked) : ∃ s, (system e).Reaches (raised e action) s ∧
      s.pc = .flushAgain ∧ Settled s ∧ s.sa = action ∧
      ∀ y ∈ e.signals.pending, y ≠ SIGABRT → y ∈ s.signals.pending := by
  obtain ⟨g, hg⟩ : ∃ g, (raised e action).signals.take SIGABRT = some g :=
    ⟨_, if_pos ⟨Signals.mem_send.mpr (Or.inl rfl), hb⟩⟩
  obtain ⟨-, hpending, hblocked⟩ := Signals.take_eq_some.mp hg
  let t : State := { raised e action with
    signals := g.enter SIGABRT action.sa_mask
    saved := some g.blocked }
  let u : State := { raised e action with signals := t.signals.setMask g.blocked }
  have hdeliver : (system e).step (raised e action) (.deliver SIGABRT) = some t := by
    have hcaught : (raised e action).action.sa_handler = .caught := hh
    simp only [system, step, ended, deliver, hg, Option.map_some, hcaught]
    rfl
  have hreturn : (system e).step t (.handlerReturns none) = some u := rfl
  have hmove : ∀ y, y ∈ g.pending ↔ y ≠ SIGABRT ∧ y ∈ e.signals.pending := by
    intro y
    rw [hpending, Finset.mem_erase]
    exact and_congr_right fun hne => Signals.mem_send.trans (or_iff_right hne)
  refine ⟨u, ⟨[_, _], .cons hdeliver (.cons hreturn (.nil u))⟩, rfl, ⟨rfl, fun y hy => ?_⟩, rfl,
    fun y hy hne => (hmove y).mpr ⟨hne, hy⟩⟩
  change y ∈ g.blocked
  rw [hblocked]
  exact e.blocked ((hmove y).mp hy).2

/-- A fatal signal that the action's mask does not block comes first, in some run. -/
lemma loud_fails (hf : e.action.sa_handler = .caught ∨ e.flushed = 0) (hk : ¬ FirstKills e)
    (hx : x ∈ e.signals.pending) (hne : x ≠ SIGABRT) (hfatal : e.fatal x = true)
    (hm : x ∉ e.action.sa_mask) :
    ∃ s, (system e).Reaches (start e) s ∧ s.pc = .ended (.killed x) := by
  obtain ⟨action, hr, hmask, hsame⟩ := reaches_member hf
  rw [← hmask] at hm
  by_cases hmem : SIGABRT ∈ action.sa_mask
  · obtain ⟨s, hlast, hend⟩ := unblock_kills hmem hx hm hne hfatal
    exact ⟨s, hr.trans hlast, hend⟩
  · have hat : (system e).Reaches (start e) (raised e action) :=
      hr.trans (reaches_raised hmem)
    by_cases hb : SIGABRT ∈ e.signals.blocked
    · obtain ⟨s, hlast, hend⟩ := setMask_kills (s := raised e action) rfl (raised_settled hb)
        (Signals.mem_send.mpr (Or.inr hx)) hm hne hfatal
      exact ⟨s, hat.trans hlast, hend⟩
    · have hh : e.action.sa_handler = .caught := by
        by_contra hh
        exact hk ⟨hh, hb, hmask ▸ hmem⟩
      have hcaught : action.sa_handler = .caught := by rw [hsame hh, hh]
      obtain ⟨t, ht, hpc, hs, hsa, hpending⟩ := raised_handled hcaught hb
      obtain ⟨s, hlast, hend⟩ :=
        setMask_kills hpc hs (hpending x hx hne) (by rw [hsa]; exact hm) hne hfatal
      exact ⟨s, (hat.trans ht).trans hlast, hend⟩

end Necessary

/-- The failures are the ordinary exit after a failed `fcloseall`, and another signal
that the mask of the action, put in the place of the process's own, lets through. -/
theorem aborts_iff (e : Entry) : Aborts e ↔
    (e.action.sa_handler = .caught ∨ e.flushed = 0) ∧ (Quiet e ∨ FirstKills e) := by
  constructor
  · intro ha
    have hf : e.action.sa_handler = .caught ∨ e.flushed = 0 := by
      by_contra hn
      obtain ⟨hh, hf⟩ := not_or.mp hn
      exact flush_fails hh hf ha
    refine ⟨hf, ?_⟩
    by_contra hn
    obtain ⟨hq, hk⟩ := not_or.mp hn
    simp only [Quiet, not_forall] at hq
    obtain ⟨x, hx, hne, hfatal, hm⟩ := hq
    obtain ⟨s, hr, hend⟩ := loud_fails hf hk hx hne hfatal hm
    have hkilled := ha.killed s _ ⟨start e, rfl, hr⟩ hend
    exact hne (Outcome.killed.inj hkilled)
  · rintro ⟨hf, hq | hk⟩
    · exact quiet_aborts hq hf
    · exact firstKills_aborts hk (hf.resolve_left hk.handler)

def unflushed : Entry where
  signals := ⟨∅, ∅⟩
  action := ⟨.SIG_DFL, ∅⟩
  flushed := -1
  fatal _ := false
  settled _ hx := by cases hx.1

/-- A `SIGTERM` that waits, blocked by the process and not by the action's mask. -/
def unmasked : Entry where
  signals := ⟨{15}, {15}⟩
  action := ⟨.caught, ∅⟩
  flushed := 0
  fatal x := x == 15
  settled _ hx := hx.2 hx.1

theorem abort_exits_normally : ¬ Aborts unflushed ∧ ¬ Aborts unmasked := by
  constructor
  · exact flush_fails (by decide) (by decide)
  · intro ha
    obtain ⟨s, hr, hend⟩ := loud_fails (e := unmasked) (x := 15) (Or.inl rfl)
      (fun hk => hk.handler rfl) (by decide) (by decide) (by decide) (by decide)
    have hkilled := ha.killed s _ ⟨_, rfl, hr⟩ hend
    cases hkilled

end UnixProgramming.Abort
