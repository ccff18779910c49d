import UnixProgramming.Abort.Outcome

/-! The signals other than `SIGABRT` that are blocked while `abort` runs. -/

namespace UnixProgramming.Abort

open Library Library.Transition

def Held (e : Entry) (mask : Finset Signal) : Prop :=
  ∀ x, x ≠ SIGABRT → (x ∈ mask ↔ x ∈ e.signals.blocked)

/-- Outside the handler of `SIGABRT`, the other signals are blocked as they were at the call. -/
def KeepsMask (e : Entry) : Prop :=
  ∀ s, (system e).Reachable s → s.saved = none → Held e s.signals.blocked

structure Holding (e : Entry) (s : State) : Prop where
  current : s.saved = none → Held e s.signals.blocked
  saved : ∀ mask ∈ s.saved, Held e mask
  handling : s.saved ≠ none → SIGABRT ∈ s.signals.blocked

def Sets (s : State) : Prop :=
  s.pc = .unblock ∨ s.pc = .setMask

variable {e : Entry} {s s' : State} {x : Signal} {l : Label}

section Steps

lemma statement_kept (he : statement e s = some s') (hset : ¬ Sets s) :
    s'.signals.blocked = s.signals.blocked ∧ s'.saved = s.saved := by
  cases hpc : s.pc with
  | query | kill | flushAgain | restore | killAgain | exit =>
    simp only [statement, hpc, Option.some.injEq] at he
    subst he
    exact ⟨rfl, rfl⟩
  | default | flush =>
    simp only [statement, hpc, Option.some.injEq] at he
    subst he
    exact ⟨rfl, rfl⟩
  | ignored | member =>
    simp only [statement, hpc] at he
    split_ifs at he <;> (obtain rfl := Option.some.inj he; exact ⟨rfl, rfl⟩)
  | unblock => exact absurd (Or.inl hpc) hset
  | setMask => exact absurd (Or.inr hpc) hset
  | ended o => simp [statement, hpc] at he

lemma statement_sets (he : statement e s = some s') (hset : Sets s) :
    s'.signals.blocked = s.sa.sa_mask ∧ s'.saved = s.saved := by
  rcases hset with hpc | hpc <;> simp only [statement, hpc, Option.some.injEq] at he <;>
    (subst he; exact ⟨rfl, rfl⟩)

lemma statement_holding (h : Holding e s) (hs : Settled s)
    (hset : Sets s → Held e s.sa.sa_mask) (he : statement e s = some s') : Holding e s' := by
  obtain ⟨hheld, hv⟩ : Held e s'.signals.blocked ∧ s'.saved = s.saved := by
    by_cases hpc : Sets s
    · obtain ⟨hb, hv⟩ := statement_sets he hpc
      exact ⟨hb ▸ hset hpc, hv⟩
    · obtain ⟨hb, hv⟩ := statement_kept he hpc
      exact ⟨hb ▸ h.current hs.1, hv⟩
  rw [hs.1] at hv
  refine ⟨fun _ => hheld, fun mask hm => ?_, fun hne => absurd hv hne⟩
  rw [hv] at hm
  cases hm

lemma deliver_holding (h : Holding e s) (he : deliver e s x = some s') : Holding e s' := by
  obtain ⟨g, hg, rfl⟩ := Option.map_eq_some_iff.mp he
  obtain ⟨hd, -, hb⟩ := Signals.take_eq_some.mp hg
  have hkeep : Holding e { s with signals := g } := by
    refine ⟨fun hv => ?_, h.saved, fun hv => ?_⟩
    · rw [hb]
      exact h.current hv
    · rw [hb]
      exact h.handling hv
  split_ifs with hx hf
  · subst hx
    cases s.action.sa_handler with
    | SIG_DFL => exact ⟨hkeep.current, hkeep.saved, hkeep.handling⟩
    | SIG_IGN => exact hkeep
    | caught =>
      refine ⟨nofun, fun mask hm => ?_, fun _ => by simp [Signals.enter]⟩
      obtain rfl := Option.some.inj hm
      -- the handler is not entered from inside itself
      have hv : s.saved = none := by
        by_contra hv
        exact hd.2 (h.handling hv)
      exact hkeep.current hv
  · exact ⟨hkeep.current, hkeep.saved, hkeep.handling⟩
  · exact hkeep

lemma handlerReturns_holding {installed : Option Sigaction} (h : Holding e s)
    (he : handlerReturns s installed = some s') : Holding e s' := by
  obtain ⟨mask, hv, rfl⟩ := Option.map_eq_some_iff.mp he
  exact ⟨fun _ => h.saved mask hv, nofun, fun hne => absurd rfl hne⟩

lemma step_holding (h : Holding e s) (hset : Sets s → Held e s.sa.sa_mask)
    (he : step e s l = some s') : Holding e s' := by
  simp only [step, Option.ite_none_left_eq_some] at he
  obtain ⟨-, he⟩ := he
  cases l with
  | statement =>
    simp only [Option.ite_none_right_eq_some] at he
    exact statement_holding h he.1 hset he.2
  | deliver x => exact deliver_holding h he
  | handlerReturns installed => exact handlerReturns_holding h he

lemma start_holding (e : Entry) : Holding e (start e) where
  current _ _ _ := Iff.rfl
  saved _ hm := by cases hm
  handling hne := absurd rfl hne

lemma keepsMask_of_inductive {P : State → Prop} (hP : (system e).Inductive P)
    (hset : ∀ s, P s → Sets s → Held e s.sa.sa_mask) : KeepsMask e := by
  have hboth := hP.and (Q := Holding e) (by rintro _ rfl; exact start_holding e)
    fun s _ _ hs _ h he => step_holding h (hset s hs) he
  exact fun s hr hv => (hboth.reachable hr).2.current hv

end Steps

section Sufficient

/-- `sa` is read once, when nothing can have changed the disposition. -/
structure Queried (e : Entry) (s : State) : Prop where
  first : s.pc = .query → s = start e
  later : s.pc ≠ .query → ∀ x, x ≠ SIGABRT → (x ∈ s.sa.sa_mask ↔ x ∈ e.action.sa_mask)

lemma Queried.past (hpc : s.pc ≠ .query)
    (hlater : ∀ x, x ≠ SIGABRT → (x ∈ s.sa.sa_mask ↔ x ∈ e.action.sa_mask)) : Queried e s :=
  ⟨fun hq => absurd hq hpc, fun _ => hlater⟩

lemma statement_queried (h : Queried e s) (he : statement e s = some s') : Queried e s' := by
  cases hpc : s.pc with
  | query =>
    have hs := h.first hpc
    simp only [statement, hpc, Option.some.injEq] at he
    subst he
    refine .past (by simp) fun x _ => ?_
    rw [hs]
    rfl
  | ignored =>
    have hlater := h.later (by simp [hpc])
    simp only [statement, hpc] at he
    split_ifs at he <;> (obtain rfl := Option.some.inj he)
    · exact .past (by simp) hlater
    · exact .past (by simp) hlater
  | member =>
    have hlater := h.later (by simp [hpc])
    simp only [statement, hpc] at he
    split_ifs at he <;> (obtain rfl := Option.some.inj he)
    · refine .past (by simp) fun x hne => ?_
      rw [Finset.mem_erase, and_iff_right hne]
      exact hlater x hne
    · exact .past (by simp) hlater
  | default | flush =>
    have hlater := h.later (by simp [hpc])
    simp only [statement, hpc, Option.some.injEq] at he
    subst he
    refine .past (fun hq => ?_) hlater
    simp only at hq
    split_ifs at hq
  | unblock | kill | flushAgain | restore | setMask | killAgain | exit =>
    have hlater := h.later (by simp [hpc])
    simp only [statement, hpc, Option.some.injEq] at he
    subst he
    exact .past (by simp) hlater
  | ended o => simp [statement, hpc] at he

lemma deliver_queried (h : Queried e s) (he : deliver e s x = some s') : Queried e s' := by
  obtain ⟨g, hg, rfl⟩ := Option.map_eq_some_iff.mp he
  obtain ⟨hd, -, -⟩ := Signals.take_eq_some.mp hg
  have hpc : s.pc ≠ .query := by
    intro hq
    rw [h.first hq] at hd
    exact e.settled x hd
  have hlater := h.later hpc
  split_ifs with hx hf
  · cases s.action.sa_handler with
    | SIG_DFL => exact .past (by simp) hlater
    | SIG_IGN | caught => exact .past hpc hlater
  · exact .past (by simp) hlater
  · exact .past hpc hlater

lemma queried_inductive (e : Entry) : (system e).Inductive (Queried e) where
  initial := by
    rintro _ rfl
    exact ⟨fun _ => rfl, fun hne => absurd rfl hne⟩
  step s l s' h he := by
    simp only [system, step, Option.ite_none_left_eq_some] at he
    obtain ⟨-, he⟩ := he
    cases l with
    | statement =>
      simp only [Option.ite_none_right_eq_some] at he
      exact statement_queried h he.2
    | deliver x => exact deliver_queried h he
    | handlerReturns installed =>
      obtain ⟨mask, hv, rfl⟩ := Option.map_eq_some_iff.mp he
      refine ⟨fun hq => ?_, h.later⟩
      rw [h.first hq] at hv
      cases hv

lemma same_keepsMask (h : Held e e.action.sa_mask) : KeepsMask e := by
  apply keepsMask_of_inductive (queried_inductive e)
  intro s hs hset x hne
  have hpc : s.pc ≠ .query := by
    rcases hset with hpc | hpc <;> simp [hpc]
  exact (hs.later hpc x hne).trans (h x hne)

lemma firstKills_keepsMask (hk : FirstKills e) (hf : e.flushed = 0) : KeepsMask e := by
  apply keepsMask_of_inductive (direct_inductive hk hf)
  intro s hs hset
  rcases hset with hpc | hpc <;> simp only [Direct, hpc] at hs

/-- A failed `fcloseall` ends the process before a mask is set. -/
def Flushing (e : Entry) (s : State) : Prop :=
  match s.pc with
  | .query => s = start e
  | .ignored => s.sa.sa_handler ≠ .caught
  | .default => s.sa.sa_handler = .SIG_DFL
  | .flush | .ended _ => True
  | .member | .unblock | .kill | .flushAgain | .restore | .setMask | .killAgain | .exit => False

lemma statement_flushing (hh : e.action.sa_handler ≠ .caught) (hf : e.flushed ≠ 0)
    (h : Flushing e s) (he : statement e s = some s') : Flushing e s' := by
  cases hpc : s.pc with
  | query =>
    simp only [Flushing, hpc] at h
    simp only [statement, hpc, Option.some.injEq] at he
    subst he
    rw [h]
    exact hh
  | ignored =>
    simp only [Flushing, hpc] at h
    simp only [statement, hpc] at he
    split_ifs at he with hign <;> obtain rfl := Option.some.inj he
    · rfl
    · change s.sa.sa_handler = .SIG_DFL
      cases hd : s.sa.sa_handler with
      | SIG_DFL => rfl
      | SIG_IGN => exact absurd hd hign
      | caught => exact absurd hd h
  | default =>
    simp only [Flushing, hpc] at h
    simp only [statement, hpc, h, if_true, Option.some.injEq] at he
    subst he
    trivial
  | flush =>
    simp only [statement, hpc, if_pos hf, Option.some.injEq] at he
    subst he
    trivial
  | member | unblock | kill | flushAgain | restore | setMask | killAgain | exit =>
    simp only [Flushing, hpc] at h
  | ended o => simp [statement, hpc] at he

lemma Flushing.same (h : Flushing e s) (hq : s.pc ≠ .query) (hsa : s'.sa = s.sa)
    (hpc : s'.pc = s.pc) : Flushing e s' := by
  simp only [Flushing] at h ⊢
  cases hs : s.pc <;> simp_all

lemma deliver_flushing (h : Flushing e s) (he : deliver e s x = some s') : Flushing e s' := by
  obtain ⟨g, hg, rfl⟩ := Option.map_eq_some_iff.mp he
  obtain ⟨hd, -, -⟩ := Signals.take_eq_some.mp hg
  have hpc : s.pc ≠ .query := by
    intro hq
    simp only [Flushing, hq] at h
    rw [h] at hd
    exact e.settled x hd
  split_ifs with hx hf
  · cases s.action.sa_handler with
    | SIG_DFL => trivial
    | SIG_IGN | caught => exact h.same hpc rfl rfl
  · trivial
  · exact h.same hpc rfl rfl

lemma flushing_inductive (hh : e.action.sa_handler ≠ .caught) (hf : e.flushed ≠ 0) :
    (system e).Inductive (Flushing e) where
  initial := by
    rintro _ rfl
    rfl
  step s l s' h he := by
    simp only [system, step, Option.ite_none_left_eq_some] at he
    obtain ⟨-, he⟩ := he
    cases l with
    | statement =>
      simp only [Option.ite_none_right_eq_some] at he
      exact statement_flushing hh hf h he.2
    | deliver x => exact deliver_flushing h he
    | handlerReturns installed =>
      obtain ⟨mask, hv, rfl⟩ := Option.map_eq_some_iff.mp he
      refine h.same (fun hq => ?_) rfl rfl
      simp only [Flushing, hq] at h
      rw [h] at hv
      cases hv

lemma flush_keepsMask (hh : e.action.sa_handler ≠ .caught) (hf : e.flushed ≠ 0) :
    KeepsMask e := by
  apply keepsMask_of_inductive (flushing_inductive hh hf)
  intro s hs hset
  rcases hset with hpc | hpc <;> simp only [Flushing, hpc] at hs

end Sufficient

section Necessary

lemma setMask_held (hk : KeepsMask e) (hr : (system e).Reachable s) (hpc : s.pc = .flushAgain)
    (hs : Settled s) : Held e s.sa.sa_mask := by
  let sa : Sigaction := { s.sa with sa_handler := .SIG_DFL }
  let t : State := { s with sa := sa, action := sa, pc := .setMask }
  have hflush : (system e).Reaches s { s with pc := .restore } :=
    reaches_statement (by simp [ended, hpc]) hs (by simp [statement, hpc])
  have hrestore : (system e).Reaches { s with pc := .restore } t := reaches_statement rfl hs rfl
  have hmask : (system e).Reaches t
      { t with signals := t.signals.setMask s.sa.sa_mask, pc := .killAgain } :=
    reaches_statement rfl hs rfl
  exact hk _ (hr.reaches ((hflush.trans hrestore).trans hmask)) hs.1

lemma unblock_held (hk : KeepsMask e) {action : Sigaction}
    (hr : (system e).Reachable (before e action .member)) (hmem : SIGABRT ∈ action.sa_mask) :
    Held e action.sa_mask := by
  let sa : Sigaction := { action with sa_mask := action.sa_mask.erase SIGABRT }
  let t : State := { before e action .unblock with sa := sa }
  have hmember : (system e).Reaches (before e action .member) t :=
    reaches_statement rfl before_settled (by simp [statement, before, hmem, t, sa])
  have hunblock : (system e).Reaches t
      { t with signals := e.signals.setMask sa.sa_mask, pc := .kill } :=
    reaches_statement rfl ⟨rfl, fun _ hy => e.blocked hy⟩ rfl
  have hheld := hk _ (hr.reaches (hmember.trans hunblock)) rfl
  intro x hne
  have hx : x ∈ action.sa_mask.erase SIGABRT ↔ x ∈ e.signals.blocked := hheld x hne
  rwa [Finset.mem_erase, and_iff_right hne] at hx

lemma keepsMask_same (hk : KeepsMask e) (hf : e.action.sa_handler = .caught ∨ e.flushed = 0)
    (hkills : ¬ FirstKills e) : Held e e.action.sa_mask := by
  obtain ⟨action, hr, hmask, hsame⟩ := reaches_member hf
  have hat : (system e).Reachable (before e action .member) := ⟨start e, rfl, hr⟩
  rw [← hmask]
  by_cases hmem : SIGABRT ∈ action.sa_mask
  · exact unblock_held hk hat hmem
  · have hraised := hat.reaches (reaches_raised hmem)
    by_cases hb : SIGABRT ∈ e.signals.blocked
    · exact setMask_held hk hraised rfl (raised_settled hb)
    · have hh : e.action.sa_handler = .caught := by
        by_contra hh
        exact hkills ⟨hh, hb, hmask ▸ hmem⟩
      have hcaught : action.sa_handler = .caught := by rw [hsame hh, hh]
      obtain ⟨t, ht, hpc, hs, hsa, -⟩ := raised_handled hcaught hb
      rw [← hsa]
      exact setMask_held hk (hraised.reaches ht) hpc hs

end Necessary

/-- The mask that is set is the one of the action. It is the process's own, or it is
never set: `fcloseall` fails, or the first `kill` ends the process. -/
theorem keepsMask_iff (e : Entry) : KeepsMask e ↔
    Held e e.action.sa_mask ∨ FirstKills e ∨
      e.action.sa_handler ≠ .caught ∧ e.flushed ≠ 0 := by
  constructor
  · intro hk
    by_cases hf : e.action.sa_handler = .caught ∨ e.flushed = 0
    · by_cases hkills : FirstKills e
      · exact Or.inr (Or.inl hkills)
      · exact Or.inl (keepsMask_same hk hf hkills)
    · exact Or.inr (Or.inr (not_or.mp hf))
  · rintro (hsame | hkills | ⟨hh, hf⟩)
    · exact same_keepsMask hsame
    · by_cases hf : e.flushed = 0
      · exact firstKills_keepsMask hkills hf
      · exact flush_keepsMask hkills.handler hf
    · exact flush_keepsMask hh hf

/-- `SIGTERM` is blocked at the call, and not in the mask of the handler's action. -/
theorem abort_unblocks_another : ¬ KeepsMask unmasked := by
  intro hk
  have hheld := keepsMask_same hk (Or.inl rfl) fun hkills => hkills.handler rfl
  have hout := (hheld 15 (by decide)).mpr (by decide)
  exact absurd hout (by decide)

end UnixProgramming.Abort
