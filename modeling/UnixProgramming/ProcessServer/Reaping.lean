import UnixProgramming.Library.Transition
import UnixProgramming.Library.Signals
import Mathlib.Tactic

/-! The handler `recycle`, as `main` installs it for `SIGCHLD`, beside children that
end at any time. -/

namespace UnixProgramming.ProcessServer.Reaping

open Library Library.Transition

abbrev Signal := ℕ

def SIGCHLD : Signal := 17

inductive Child
  | absent
  | running
  | zombie
  | reaped
  deriving DecidableEq, Repr

inductive HandlerPc
  | test
  | print (pid : ℤ)
  | leave
  deriving DecidableEq, Repr

structure State where
  children : ℕ → Child
  forked : ℕ
  signals : Signals Signal
  handler : Option HandlerPc
  saved : Finset Signal
  reaps : List ℤ

def sa_mask : Finset Signal := ∅

inductive Label
  | fork
  | ends (c : ℕ)
  | stops (c : ℕ)
  | kill
  | deliver
  | waitpid (ret : ℤ)
  | print
  | leave
  deriving DecidableEq, Repr

def start (signals : Signals Signal) : State where
  children _ := .absent
  forked := 0
  signals := signals
  handler := none
  saved := ∅
  reaps := []

namespace State

def setChild (s : State) (c : ℕ) (v : Child) : State :=
  { s with children := Function.update s.children c v }

def sends (s : State) : State :=
  { s with signals := s.signals.send SIGCHLD }

def Has (s : State) (v : Child) : Prop :=
  ∃ c < s.forked + 1, s.children c = v

instance (s : State) (v : Child) : Decidable (s.Has v) :=
  inferInstanceAs (Decidable (∃ c < s.forked + 1, s.children c = v))

end State

/-- With `WNOHANG`: any terminated child, 0 when none has terminated, and -1 when
there is no child. -/
def waitpid (s : State) (ret : ℤ) : Option State :=
  if 0 < ret then
    if s.children ret.toNat = .zombie then
      some { s.setChild ret.toNat .reaped with reaps := s.reaps ++ [ret] }
    else none
  else if ret = 0 then
    if s.Has .running ∧ ¬ s.Has .zombie then some s else none
  else if ret = -1 ∧ ¬ s.Has .running ∧ ¬ s.Has .zombie then some s
  else none

def waitpidStep (s : State) (ret : ℤ) : Option State :=
  if s.handler = some .test then
    (waitpid s ret).map fun r => { r with handler := some (if 0 < ret then .print ret else .leave) }
  else none

def printStep (s : State) : Option State :=
  match s.handler with
  | some (.print _) => some { s with handler := some .test }
  | _ => none

def leaveStep (s : State) : Option State :=
  if s.handler = some .leave then
    some { s with handler := none, signals := s.signals.setMask s.saved }
  else none

def deliverStep (s : State) : Option State :=
  (s.signals.take SIGCHLD).map fun g =>
    { s with
      signals := g.enter SIGCHLD sa_mask
      saved := g.blocked
      handler := some .test }

def forkStep (s : State) : Option State :=
  if s.handler = none then
    some { s.setChild (s.forked + 1) .running with forked := s.forked + 1 }
  else none

def step (s : State) : Label → Option State
  | .fork => forkStep s
  | .ends c => if s.children c = .running then some (s.setChild c .zombie).sends else none
  | .stops c => if s.children c = .running then some s.sends else none
  | .kill => some s.sends
  | .deliver => deliverStep s
  | .waitpid ret => waitpidStep s ret
  | .print => printStep s
  | .leave => leaveStep s

def system (signals : Signals Signal) : System State Label where
  initial s := s = start signals
  step := step

variable {s s' : State} {c : ℕ} {ret : ℤ} {v : Child}

def Quiet (s : State) : Prop :=
  SIGCHLD ∉ s.signals.pending ∧ s.handler = none

def HandlerPc.looping : HandlerPc → Bool
  | .test | .print _ => true
  | .leave => false

structure Swept (s : State) : Prop where
  signalled : ∀ c, s.children c = .zombie →
    SIGCHLD ∈ s.signals.pending ∨ s.handler.any HandlerPc.looping = true
  numbered : ∀ c, s.children c ≠ .absent → 0 < c ∧ c ≤ s.forked
  counted : ∀ c : ℕ, s.reaps.count (c : ℤ) = if s.children c = .reaped then 1 else 0

lemma waitpid_cases (he : waitpid s ret = some s') :
    (∃ c : ℕ, ret = c ∧ 0 < c ∧ s.children c = .zombie ∧
      s' = { s.setChild c .reaped with reaps := s.reaps ++ [(c : ℤ)] }) ∨
    ret ≤ 0 ∧ s' = s ∧ ¬ s.Has .zombie := by
  simp only [waitpid] at he
  split_ifs at he with hpos hz hzero hrun herr
  · obtain rfl := Option.some.inj he
    have hret : ((ret.toNat : ℕ) : ℤ) = ret := Int.toNat_of_nonneg hpos.le
    exact Or.inl ⟨ret.toNat, hret.symm, by omega, hz, by rw [hret]⟩
  · exact Or.inr ⟨hzero.le, (Option.some.inj he).symm, hrun.2⟩
  · exact Or.inr ⟨by omega, (Option.some.inj he).symm, herr.2.2⟩

lemma Swept.congr (h : Swept s) (hc : s'.children = s.children) (hf : s'.forked = s.forked)
    (hr : s'.reaps = s.reaps)
    (hs : SIGCHLD ∈ s.signals.pending ∨ s.handler.any HandlerPc.looping = true →
      SIGCHLD ∈ s'.signals.pending ∨ s'.handler.any HandlerPc.looping = true) : Swept s' where
  signalled c hz := hs (h.signalled c (hc ▸ hz))
  numbered c hn := by
    rw [hf]
    exact h.numbered c (hc ▸ hn)
  counted c := by
    rw [hr, hc]
    exact h.counted c

lemma Swept.none (h : Swept s) (hz : ¬ s.Has .zombie) (c : ℕ) : s.children c ≠ .zombie := by
  intro hc
  obtain ⟨-, hle⟩ := h.numbered c (by rw [hc]; decide)
  exact hz ⟨c, Nat.lt_succ_of_le hle, hc⟩

lemma start_swept (signals : Signals Signal) : Swept (start signals) where
  signalled _ hc := by cases hc
  numbered _ hc := absurd rfl hc
  counted _ := rfl

lemma forkStep_swept (h : Swept s) (he : forkStep s = some s') : Swept s' := by
  simp only [forkStep, Option.ite_none_right_eq_some, Option.some.injEq] at he
  obtain ⟨-, rfl⟩ := he
  have hnew : s.children (s.forked + 1) = .absent := by
    by_contra hn
    exact absurd (h.numbered _ hn).2 (Nat.not_succ_le_self _)
  refine ⟨fun c hc => ?_, fun c hc => ?_, fun c => ?_⟩
  · by_cases hcn : c = s.forked + 1
    · simp [State.setChild, hcn] at hc
    · exact h.signalled c (by simpa [State.setChild, hcn] using hc)
  · by_cases hcn : c = s.forked + 1
    · exact ⟨hcn ▸ Nat.succ_pos _, hcn.le⟩
    · obtain ⟨hpos, hle⟩ := h.numbered c (by simpa [State.setChild, hcn] using hc)
      exact ⟨hpos, hle.trans (Nat.le_succ _)⟩
  · by_cases hcn : c = s.forked + 1
    · simpa [State.setChild, hcn, hnew] using h.counted c
    · simpa [State.setChild, hcn] using h.counted c

lemma ends_swept (h : Swept s) (hc : s.children c = .running) :
    Swept (s.setChild c .zombie).sends := by
  refine ⟨fun d hd => Or.inl (by simp [State.sends]), fun d hd => ?_, fun d => ?_⟩
  · by_cases hdc : d = c
    · exact h.numbered d (by rw [hdc, hc]; decide)
    · exact h.numbered d (by simpa [State.sends, State.setChild, hdc] using hd)
  · by_cases hdc : d = c
    · simpa [State.sends, State.setChild, hdc, hc] using h.counted c
    · simpa [State.sends, State.setChild, hdc] using h.counted d

lemma waitpidStep_swept (h : Swept s) (he : waitpidStep s ret = some s') : Swept s' := by
  simp only [waitpidStep, Option.ite_none_right_eq_some] at he
  obtain ⟨-, he⟩ := he
  obtain ⟨r, hr, rfl⟩ := Option.map_eq_some_iff.mp he
  rcases waitpid_cases hr with ⟨c, rfl, hpos, hz, rfl⟩ | ⟨hret, rfl, hz⟩
  · rw [if_pos (Int.natCast_pos.mpr hpos)]
    refine ⟨fun d _ => Or.inr rfl, fun d hd => ?_, fun d => ?_⟩
    · by_cases hdc : d = c
      · exact h.numbered d (by rw [hdc, hz]; decide)
      · exact h.numbered d (by simpa [State.setChild, hdc] using hd)
    · have hcount := h.counted d
      by_cases hdc : d = c
      · subst hdc
        simp [hz] at hcount
        simp [State.setChild, List.count_append, hcount]
      · simpa [State.setChild, List.count_append, hdc, Ne.symm hdc] using hcount
  · rw [if_neg (by omega)]
    exact ⟨fun d hd => absurd hd (h.none hz d), h.numbered, h.counted⟩

lemma deliverStep_swept (h : Swept s) (he : deliverStep s = some s') : Swept s' := by
  obtain ⟨g, -, rfl⟩ := Option.map_eq_some_iff.mp he
  exact h.congr rfl rfl rfl fun _ => Or.inr rfl

lemma printStep_cases (he : printStep s = some s') :
    (∃ pid, s.handler = some (.print pid)) ∧ s' = { s with handler := some .test } := by
  simp only [printStep] at he
  split at he
  next pid hp => exact ⟨⟨pid, hp⟩, (Option.some.inj he).symm⟩
  next => cases he

lemma leaveStep_swept (h : Swept s) (he : leaveStep s = some s') : Swept s' := by
  simp only [leaveStep, Option.ite_none_right_eq_some, Option.some.injEq] at he
  obtain ⟨hl, rfl⟩ := he
  refine h.congr rfl rfl rfl fun hs => Or.inl ?_
  rcases hs with hp | ht
  · exact hp
  · simp [hl, HandlerPc.looping] at ht

lemma swept_inductive (signals : Signals Signal) : (system signals).Inductive Swept where
  initial := by
    rintro _ rfl
    exact start_swept signals
  step s l s' h he := by
    cases l with
    | fork => exact forkStep_swept h he
    | ends c =>
      obtain ⟨hc, rfl⟩ : _ ∧ (s.setChild c .zombie).sends = s' := by
        simpa [system, step] using he
      exact ends_swept h hc
    | stops c =>
      obtain ⟨-, rfl⟩ : _ ∧ s.sends = s' := by simpa [system, step] using he
      exact h.congr rfl rfl rfl fun _ => Or.inl (by simp [State.sends])
    | kill =>
      obtain rfl := Option.some.inj he
      exact h.congr rfl rfl rfl fun _ => Or.inl (by simp [State.sends])
    | deliver => exact deliverStep_swept h he
    | waitpid ret => exact waitpidStep_swept h he
    | print =>
      obtain ⟨-, rfl⟩ := printStep_cases he
      exact h.congr rfl rfl rfl fun _ => Or.inr rfl
    | leave => exact leaveStep_swept h he

def Child.ended : Child → Bool
  | .zombie | .reaped => true
  | .absent | .running => false

lemma setChild_ended (hv : v.ended = true) {d : ℕ} (hd : (s.children d).ended = true) :
    ((s.setChild c v).children d).ended = true := by
  by_cases hdc : d = c
  · simp [State.setChild, hdc, hv]
  · simpa [State.setChild, hdc] using hd

lemma step_ended {l : Label} (h : Swept s) (hc : (s.children c).ended = true)
    (he : step s l = some s') : (s'.children c).ended = true := by
  cases l with
  | fork =>
    simp only [step, forkStep, Option.ite_none_right_eq_some, Option.some.injEq] at he
    obtain ⟨-, rfl⟩ := he
    have hne : c ≠ s.forked + 1 := by
      rintro rfl
      have habs : s.children (s.forked + 1) ≠ .absent := fun ha => by simp [ha, Child.ended] at hc
      exact Nat.not_succ_le_self _ (h.numbered _ habs).2
    simpa [State.setChild, hne] using hc
  | ends d =>
    obtain ⟨-, rfl⟩ : _ ∧ (s.setChild d .zombie).sends = s' := by simpa [step] using he
    exact setChild_ended rfl hc
  | stops d =>
    obtain ⟨-, rfl⟩ : _ ∧ s.sends = s' := by simpa [step] using he
    exact hc
  | kill =>
    obtain rfl := Option.some.inj he
    exact hc
  | deliver =>
    obtain ⟨g, -, rfl⟩ := Option.map_eq_some_iff.mp he
    exact hc
  | waitpid ret =>
    simp only [step, waitpidStep, Option.ite_none_right_eq_some] at he
    obtain ⟨-, he⟩ := he
    obtain ⟨r, hr, rfl⟩ := Option.map_eq_some_iff.mp he
    rcases waitpid_cases hr with ⟨d, -, -, -, rfl⟩ | ⟨-, rfl, -⟩
    · exact setChild_ended rfl hc
    · exact hc
  | print =>
    obtain ⟨-, rfl⟩ := printStep_cases he
    exact hc
  | leave =>
    simp only [step, leaveStep, Option.ite_none_right_eq_some, Option.some.injEq] at he
    obtain ⟨-, rfl⟩ := he
    exact hc

section Drain

variable {signals : Signals Signal}

lemma reaches_step {l : Label} (he : step s l = some s') : (system signals).Reaches s s' :=
  ⟨[l], .cons he (.nil s')⟩

variable (signals) in
lemma leave_reaches (hl : s.handler = some .leave) : ∃ s', (system signals).Reaches s s' ∧
    s'.handler = none ∧ s'.signals = s.signals.setMask s.saved :=
  ⟨{ s with handler := none, signals := s.signals.setMask s.saved }, reaches_step (l := .leave) (by
    simp only [step, leaveStep, hl, if_true]), rfl, rfl⟩

lemma waitpid_empty (hz : ¬ s.Has .zombie) : ∃ ret, ret ≤ 0 ∧ waitpid s ret = some s := by
  by_cases hrun : s.Has .running
  · exact ⟨0, le_rfl, by simp [waitpid, hrun, hz]⟩
  · exact ⟨-1, by decide, by simp [waitpid, hrun, hz]⟩

def State.zombies (s : State) : Finset ℕ :=
  (Finset.range (s.forked + 1)).filter fun c => s.children c = .zombie

variable (signals) in
lemma reap_reaches (ht : s.handler = some .test) (hc : c ∈ s.zombies) (h₀ : 0 < c) :
    ∃ s', (system signals).Reaches s s' ∧ s'.handler = some .test ∧ s'.signals = s.signals ∧
      s'.saved = s.saved ∧ s'.zombies.card < s.zombies.card := by
  obtain ⟨-, hz⟩ := Finset.mem_filter.mp hc
  have hpos : (0 : ℤ) < c := Int.natCast_pos.mpr h₀
  let r : State := { s.setChild c .reaped with reaps := s.reaps ++ [(c : ℤ)] }
  have hw : waitpid s c = some r := by
    rw [waitpid, if_pos hpos, if_pos (by simpa using hz)]
    rfl
  have hfirst : step s (.waitpid c) = some { r with handler := some (.print c) } := by
    simp only [step, waitpidStep, ht, if_true, hw, Option.map_some, if_pos hpos]
  have hsecond : step { r with handler := some (.print c) } .print =
      some { r with handler := some .test } := rfl
  refine ⟨_, (reaches_step hfirst).trans (reaches_step hsecond), rfl, rfl, rfl, ?_⟩
  apply Finset.card_lt_card
  refine ⟨fun d hd => ?_, fun hsub => ?_⟩
  · obtain ⟨hr, hd⟩ := Finset.mem_filter.mp hd
    by_cases hdc : d = c
    · exact hdc ▸ hc
    · exact Finset.mem_filter.mpr ⟨hr, by simpa [r, State.setChild, hdc] using hd⟩
  · obtain ⟨-, hd⟩ := Finset.mem_filter.mp (hsub hc)
    simp [r, State.setChild] at hd

variable (signals) in
lemma drain_reaches (h : Swept s) (ht : s.handler = some .test) : ∃ s',
    (system signals).Reaches s s' ∧ s'.handler = none ∧
      s'.signals = s.signals.setMask s.saved := by
  induction hn : s.zombies.card using Nat.strong_induction_on generalizing s with
  | _ n ih =>
    by_cases hz : s.Has .zombie
    · obtain ⟨c, hlt, hc⟩ := hz
      have hmem : c ∈ s.zombies := Finset.mem_filter.mpr ⟨Finset.mem_range.mpr hlt, hc⟩
      have h₀ : 0 < c := (h.numbered c (by rw [hc]; decide)).1
      obtain ⟨r, hr, htr, hsig, hsaved, hcard⟩ := reap_reaches signals ht hmem h₀
      have hswept : Swept r := (swept_inductive signals).reaches h hr
      obtain ⟨s', hs', hnone, hmask⟩ := ih _ (hn ▸ hcard) hswept htr rfl
      exact ⟨s', hr.trans hs', hnone, by rw [hmask, hsig, hsaved]⟩
    · obtain ⟨ret, hle, hw⟩ := waitpid_empty hz
      have hfirst : step s (.waitpid ret) = some { s with handler := some .leave } := by
        simp only [step, waitpidStep, ht, if_true, hw, Option.map_some, if_neg hle.not_gt]
      obtain ⟨s', hs', hnone, hmask⟩ :=
        leave_reaches signals (s := { s with handler := some .leave }) rfl
      exact ⟨s', (reaches_step hfirst).trans hs', hnone, hmask⟩

variable (signals) in
lemma idle_reaches (h : Swept s) (hn : s.handler = none) (hb : SIGCHLD ∉ s.signals.blocked) :
    ∃ s', (system signals).Reaches s s' ∧ Quiet s' := by
  by_cases hp : SIGCHLD ∈ s.signals.pending
  · obtain ⟨g, hg⟩ : ∃ g, s.signals.take SIGCHLD = some g := ⟨_, if_pos ⟨hp, hb⟩⟩
    have hfirst : step s .deliver = some { s with
        signals := g.enter SIGCHLD sa_mask
        saved := g.blocked
        handler := some .test } := by simp only [step, deliverStep, hg, Option.map_some]
    have hswept := (swept_inductive signals).step s .deliver _ h hfirst
    obtain ⟨s', hs', hnone, hmask⟩ := drain_reaches signals hswept rfl
    refine ⟨s', (reaches_step hfirst).trans hs', ?_, hnone⟩
    rw [hmask]
    simp [(Signals.take_eq_some.mp hg).2.1]
  · exact ⟨s, .refl, hp, hn⟩

structure Unmasked (s : State) : Prop where
  idle : s.handler = none → SIGCHLD ∉ s.signals.blocked
  saved : s.handler ≠ none → SIGCHLD ∉ s.saved

lemma step_unmasked {l : Label} (h : Unmasked s) (he : step s l = some s') : Unmasked s' := by
  cases l with
  | fork =>
    simp only [step, forkStep, Option.ite_none_right_eq_some, Option.some.injEq] at he
    obtain ⟨-, rfl⟩ := he
    exact ⟨h.idle, h.saved⟩
  | ends d =>
    obtain ⟨-, rfl⟩ : _ ∧ (s.setChild d .zombie).sends = s' := by simpa [step] using he
    exact ⟨h.idle, h.saved⟩
  | stops d =>
    obtain ⟨-, rfl⟩ : _ ∧ s.sends = s' := by simpa [step] using he
    exact ⟨h.idle, h.saved⟩
  | kill =>
    obtain rfl := Option.some.inj he
    exact ⟨h.idle, h.saved⟩
  | deliver =>
    obtain ⟨g, hg, rfl⟩ := Option.map_eq_some_iff.mp he
    obtain ⟨hd, -, hb⟩ := Signals.take_eq_some.mp hg
    exact ⟨fun hn => (by cases hn), fun _ => hb ▸ hd.2⟩
  | waitpid ret =>
    simp only [step, waitpidStep, Option.ite_none_right_eq_some] at he
    obtain ⟨ht, he⟩ := he
    obtain ⟨r, hr, rfl⟩ := Option.map_eq_some_iff.mp he
    have hsaved : SIGCHLD ∉ s.saved := h.saved (by simp [ht])
    refine ⟨fun hn => (by cases hn), fun _ => ?_⟩
    rcases waitpid_cases hr with ⟨d, -, -, -, rfl⟩ | ⟨-, rfl, -⟩ <;> exact hsaved
  | print =>
    obtain ⟨⟨pid, hp⟩, rfl⟩ := printStep_cases he
    exact ⟨fun hn => (by cases hn), fun _ => h.saved (by simp [hp])⟩
  | leave =>
    simp only [step, leaveStep, Option.ite_none_right_eq_some, Option.some.injEq] at he
    obtain ⟨hl, rfl⟩ := he
    exact ⟨fun _ => h.saved (by simp [hl]), fun hn => absurd rfl hn⟩

lemma unmasked_inductive (hb : SIGCHLD ∉ signals.blocked) :
    (system signals).Inductive Unmasked where
  initial := by
    rintro _ rfl
    exact ⟨fun _ => hb, fun hn => absurd rfl hn⟩
  step s l s' h he := step_unmasked h he

variable (signals) in
lemma test_reaches (h : Swept s) (hu : Unmasked s) (ht : s.handler = some .test) :
    ∃ s', (system signals).Reaches s s' ∧ Quiet s' := by
  obtain ⟨r, hr, hnone, hmask⟩ := drain_reaches signals h ht
  have hswept : Swept r := (swept_inductive signals).reaches h hr
  have hb : SIGCHLD ∉ r.signals.blocked := by
    rw [hmask]
    exact hu.saved (by simp [ht])
  obtain ⟨s', hs', hq⟩ := idle_reaches signals hswept hnone hb
  exact ⟨s', hr.trans hs', hq⟩

variable (signals) in
lemma quiet_reaches (h : Swept s) (hu : Unmasked s) :
    ∃ s', (system signals).Reaches s s' ∧ Quiet s' := by
  cases hh : s.handler with
  | none => exact idle_reaches signals h hh (hu.idle hh)
  | some pc =>
    cases pc with
    | test => exact test_reaches signals h hu hh
    | print pid =>
      have hfirst : step s .print = some { s with handler := some .test } := by
        simp only [step, printStep, hh]
      obtain ⟨s', hs', hq⟩ := test_reaches signals
        ((swept_inductive signals).step s .print _ h hfirst) (step_unmasked hu hfirst) rfl
      exact ⟨s', (reaches_step hfirst).trans hs', hq⟩
    | leave =>
      obtain ⟨r, hr, hnone, hmask⟩ := leave_reaches signals hh
      have hswept : Swept r := (swept_inductive signals).reaches h hr
      have hb : SIGCHLD ∉ r.signals.blocked := by
        rw [hmask]
        exact hu.saved (by simp [hh])
      obtain ⟨s', hs', hq⟩ := idle_reaches signals hswept hnone hb
      exact ⟨s', hr.trans hs', hq⟩

end Drain

lemma Swept.quiet (h : Swept s) (hq : Quiet s) (c : ℕ) : s.children c ≠ .zombie := by
  intro hc
  rcases h.signalled c hc with hp | hh
  · exact hq.1 hp
  · simp [hq.2] at hh

lemma run_ended {signals : Signals Signal} {ls : List Label} (h : Swept s)
    (hc : (s.children c).ended = true) (hr : (system signals).Run s ls s') :
    (s'.children c).ended = true := by
  induction hr with
  | nil => exact hc
  | cons he _ ih =>
    exact ih ((swept_inductive signals).step _ _ _ h he) (step_ended h hc he)

theorem children_reaped (signals : Signals Signal) (s : State)
    (h : (system signals).Reachable s) :
    (Quiet s → ∀ c, s.children c ≠ .zombie) ∧
    (∀ c : ℕ, s.reaps.count (c : ℤ) = if s.children c = .reaped then 1 else 0) ∧
    (SIGCHLD ∉ signals.blocked → ∃ s', (system signals).Reaches s s' ∧ Quiet s' ∧
      ∀ c : ℕ, (s.children c).ended = true → s'.reaps.count (c : ℤ) = 1) := by
  have hs : Swept s := (swept_inductive signals).reachable h
  refine ⟨hs.quiet, hs.counted, fun hb => ?_⟩
  have hu : Unmasked s := (unmasked_inductive hb).reachable h
  obtain ⟨s', hr, hq⟩ := quiet_reaches signals hs hu
  have hs' : Swept s' := (swept_inductive signals).reachable (h.reaches hr)
  refine ⟨s', hr, hq, fun c hc => ?_⟩
  obtain ⟨ls, hls⟩ := hr
  have hended := run_ended hs hc hls
  have hz := hs'.quiet hq c
  rw [hs'.counted, if_pos]
  cases hv : s'.children c with
  | reaped => rfl
  | zombie => exact absurd hv hz
  | absent | running => simp [hv, Child.ended] at hended

theorem children_reaped_two : ∃ s, (system ⟨∅, ∅⟩).Reachable s ∧
    s.children 1 = .zombie ∧ s.children 2 = .zombie ∧ s.handler = some .leave ∧
    SIGCHLD ∈ s.signals.pending ∧
    ∃ s', (system ⟨∅, ∅⟩).Reaches s s' ∧ Quiet s' ∧
      ∀ c : ℕ, (s.children c).ended = true → s'.reaps.count (c : ℤ) = 1 := by
  have hrun : ((system ⟨∅, ∅⟩).exec (start ⟨∅, ∅⟩)
      [.fork, .fork, .fork, .ends 3, .deliver, .waitpid 3, .print, .waitpid 0, .ends 1,
        .ends 2]).map (fun s => (s.children 1, s.children 2, s.handler,
        decide (SIGCHLD ∈ s.signals.pending))) =
      some (.zombie, .zombie, some .leave, true) := by decide
  obtain ⟨s, hs, he⟩ := System.Reachable.observe rfl hrun
  simp only [Prod.mk.injEq, decide_eq_true_eq] at he
  obtain ⟨h₁, h₂, hh, hp⟩ := he
  exact ⟨s, hs, h₁, h₂, hh, hp, (children_reaped ⟨∅, ∅⟩ s hs).2.2 (by decide)⟩

end UnixProgramming.ProcessServer.Reaping
