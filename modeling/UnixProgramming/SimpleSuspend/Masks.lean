import UnixProgramming.SimpleSuspend.Model

/-! The three signals are blocked everywhere but in `sigsuspend`, so the handler runs only
there. -/

namespace UnixProgramming.SimpleSuspend

open Library Library.Transition

variable {e : Entry} {s s' : State} {l : Label} {x : Signal} {first : Finset Signal}
  {xs : List Signal} {r : Report} {i : ℕ}

namespace Pc

def fresh : Pc → Bool
  | .getpid | .sigprocmask => true
  | _ => false

def masked : Pc → Bool
  | .getpid | .sigprocmask | .suspended | .ended _ => false
  | _ => true

end Pc

def Installed (s : State) : Prop :=
  match s.pc with
  | .getpid | .sigprocmask => s.handled = ∅
  | .sigaction signos => s.handled ∪ signos.toFinset = blockSet
  | _ => s.handled = blockSet

/-- The masks of a process that has not ended. -/
structure Masked (e : Entry) (s : State) : Prop where
  installed : Installed s
  fresh : s.pc.fresh = true → s.signals.blocked = e.signals.blocked
  prevSet : s.pc.fresh = false → s.prevSet = e.signals.blocked
  idle : s.pc ≠ .suspended → s.frames = []
  blocked : s.pc.masked = true → blockSet ∪ s.prevSet ⊆ s.signals.blocked
  saved : s.pc = .suspended → blockSet ∪ s.prevSet ⊆ s.saved ∧ s.prevSet ⊆ s.signals.blocked
  frames : ∀ f ∈ s.frames, f.signo ∈ blockSet ∧ f.signo ∉ s.prevSet ∧ s.prevSet ⊆ f.mask
  bottom : ∀ f, s.frames.getLast? = some f → blockSet ∪ s.prevSet ⊆ f.mask

lemma Installed.subset (h : Installed s) : s.handled ⊆ blockSet := by
  cases hpc : s.pc with
  | getpid | sigprocmask =>
    simp only [Installed, hpc] at h
    simp [h]
  | sigaction signos =>
    simp only [Installed, hpc] at h
    rw [← h]
    exact Finset.subset_union_left
  | sleep | sigpending r | list r i | sigsuspend | suspended | returned | after | ended o =>
    simp only [Installed, hpc] at h
    exact h.le

lemma start_masked (e : Entry) : Masked e (start e) where
  installed := rfl
  fresh _ := rfl
  prevSet h := by cases h
  idle _ := rfl
  blocked h := by cases h
  saved h := by cases h
  frames f hf := by cases hf
  bottom f hf := by cases hf

lemma ended_false_iff : ended s = false ↔ ∀ o, s.pc ≠ .ended o := by
  cases hpc : s.pc <;> simp [ended, hpc]

lemma Masked.congr {g : Signals Signal} (h : Masked e s) (hb : g.blocked = s.signals.blocked) :
    Masked e { s with signals := g } where
  installed := h.installed
  fresh hf := hb.trans (h.fresh hf)
  prevSet := h.prevSet
  idle := h.idle
  blocked hm := by
    rw [hb]
    exact h.blocked hm
  saved hs := by
    rw [hb]
    exact h.saved hs
  frames := h.frames
  bottom := h.bottom

lemma Masked.suspends (h : Masked e s) (hn : ended s = false) (hx : x ∈ s.handled)
    (hd : x ∉ s.signals.blocked) : s.pc = .suspended := by
  have hinst := h.installed
  have hmem := hinst.subset hx
  cases hpc : s.pc with
  | suspended => rfl
  | getpid | sigprocmask =>
    simp only [Installed, hpc] at hinst
    simp [hinst] at hx
  | ended o => exact absurd hpc (ended_false_iff.mp hn o)
  | sigaction signos | sleep | sigpending r | list r i | sigsuspend | returned | after =>
    exact absurd (h.blocked (by rw [hpc]; rfl) (Finset.mem_union_left _ hmem)) hd

lemma handle_masked {g : Signals Signal} (h : Masked e s) (hpc : s.pc = .suspended)
    (hb : g.blocked = s.signals.blocked) (hx : x ∈ s.handled) (hd : x ∉ s.signals.blocked) :
    Masked e { s with
      signals := g.enter x ∅
      frames := ⟨x, false, savedMask s⟩ :: s.frames } := by
  obtain ⟨hsaved, hprev⟩ := h.saved hpc
  have hmask : s.prevSet ⊆ savedMask s := by
    simp only [savedMask]
    split_ifs
    · exact Finset.subset_union_right.trans hsaved
    · exact hprev
  refine ⟨h.installed, ?_, h.prevSet, fun hne => absurd hpc hne, ?_, fun _ => ⟨hsaved, ?_⟩,
    fun f hf => ?_, fun f hf => ?_⟩
  · simp [hpc, Pc.fresh]
  · simp [hpc, Pc.masked]
  · exact (hprev.trans hb.ge).trans Finset.subset_union_left
  · rcases List.mem_cons.mp hf with rfl | hf
    · exact ⟨h.installed.subset hx, fun hp => hd (hprev hp), hmask⟩
    · exact h.frames f hf
  · cases hfs : s.frames with
    | nil =>
      simp only [hfs, List.getLast?_singleton, Option.some.injEq] at hf
      rw [← hf, savedMask, if_pos ⟨hpc, hfs⟩]
      exact hsaved
    | cons f' fs =>
      apply h.bottom f
      simpa [hfs] using hf

lemma deliver_masked (h : Masked e s) (hn : ended s = false) (he : deliver e s x = some s')
    (hn' : ended s' = false) : Masked e s' := by
  obtain ⟨g, hg, rfl⟩ := Option.map_eq_some_iff.mp he
  obtain ⟨⟨-, hd⟩, -, hb⟩ := Signals.take_eq_some.mp hg
  split_ifs with hx hf
  · exact handle_masked h (h.suspends hn hx hd) hb hx hd
  · simp [hx, hf, ended] at hn'
  · exact h.congr hb

lemma handlerStep_masked (h : Masked e s) (he : handlerStep s = some s') : Masked e s' := by
  cases hfs : s.frames with
  | nil => simp [handlerStep, hfs] at he
  | cons f fs =>
    have hpc : s.pc = .suspended := by
      by_contra hne
      simp [h.idle hne] at hfs
    obtain ⟨hsaved, hprev⟩ := h.saved hpc
    have hf := h.frames f (by simp [hfs])
    have hrest : ∀ f' ∈ fs, f' ∈ s.frames := fun f' hf' => by simp [hfs, hf']
    have hlast : ∀ f', fs.getLast? = some f' → s.frames.getLast? = some f' := by
      intro f' hf'
      cases fs with
      | nil => cases hf'
      | cons f'' fs => simpa [hfs] using hf'
    simp only [handlerStep, hfs] at he
    by_cases hp : f.printed = true
    · simp only [hp, if_true, hpc, and_true, Option.some.injEq] at he
      subst he
      by_cases hnil : fs = []
      · subst hnil
        have hbottom := h.bottom f (by simp [hfs])
        have hinst : s.handled = blockSet := by
          have hinst := h.installed
          simpa only [Installed, hpc] using hinst
        simp only [if_true]
        exact ⟨hinst, fun hf => (by cases hf), fun _ => h.prevSet (by rw [hpc]; rfl), fun _ => rfl,
          fun _ => hbottom, fun hs => (by cases hs), fun f' hf' => (by cases hf'),
          fun f' hf' => (by cases hf')⟩
      · simp only [hnil, if_false]
        refine ⟨?_, fun hf => (by cases hf), fun _ => h.prevSet (by rw [hpc]; rfl),
          fun hne => absurd rfl hne, fun hm => (by cases hm), fun _ => ⟨hsaved, hf.2.2⟩,
          fun f' hf' => h.frames f' (hrest f' hf'), fun f' hf' => h.bottom f' (hlast f' hf')⟩
        have hinst := h.installed
        simpa only [Installed, hpc] using hinst
    · have hany : ∀ o : List Line, Masked e { s with
          frames := { f with printed := true } :: fs, out := o } := by
        intro o
        refine ⟨h.installed, h.fresh, h.prevSet, fun hne => absurd hpc hne, h.blocked, h.saved,
          fun f' hf' => ?_, fun f' hf' => ?_⟩
        · rcases List.mem_cons.mp hf' with rfl | hf'
          · exact hf
          · exact h.frames f' (hrest f' hf')
        · cases fs with
          | nil =>
            simp only [List.getLast?_singleton, Option.some.injEq] at hf'
            rw [← hf']
            exact h.bottom f (by simp [hfs])
          | cons f'' fs => exact h.bottom f' (hlast f' (by simpa using hf'))
      rw [if_neg hp, Option.some.injEq] at he
      subst he
      split_ifs
      · exact hany _
      · exact hany s.out

lemma Masked.goto {pc : Pc} {p : Finset Signal} {o : List Line} (h : Masked e s)
    (hf : s.pc.fresh = false) (hm : s.pc.masked = true) (hm' : pc.masked = true)
    (hf' : pc.fresh = false) (hinst : Installed { s with pc := pc }) :
    Masked e { s with pendings := p, out := o, pc := pc } where
  installed := hinst
  fresh hc := by rw [hf'] at hc; cases hc
  prevSet _ := h.prevSet hf
  idle _ := h.idle fun hs => by simp [hs, Pc.masked] at hm
  blocked _ := h.blocked hm
  saved hs := by
    obtain rfl : pc = .suspended := hs
    cases hm'
  frames := h.frames
  bottom := h.bottom

lemma statement_masked (h : Masked e s) (he : statement s = some s') (hn' : ended s' = false) :
    Masked e s' := by
  have hinst := h.installed
  cases hpc : s.pc with
  | getpid =>
    simp only [statement, hpc, Option.some.injEq] at he
    subst he
    simp only [Installed, hpc] at hinst
    have hframes := h.idle (by simp [hpc])
    exact ⟨hinst, fun _ => h.fresh (by rw [hpc]; rfl), fun hf => (by cases hf), fun _ => hframes,
      fun hm => (by cases hm), fun hs => (by cases hs), h.frames, h.bottom⟩
  | sigprocmask =>
    simp only [statement, hpc, Option.some.injEq] at he
    subst he
    simp only [Installed, hpc] at hinst
    have hframes := h.idle (by simp [hpc])
    refine ⟨?_, fun hf => (by cases hf), fun _ => h.fresh (by rw [hpc]; rfl), fun _ => hframes,
      fun _ => ?_, fun hs => (by cases hs), fun f hf => ?_, fun f hf => ?_⟩
    · simp [Installed, hinst, blockSet]
    · exact (Finset.union_comm _ _).le
    · simp [hframes] at hf
    · simp [hframes] at hf
  | sigaction signos =>
    simp only [Installed, hpc] at hinst
    cases signos with
    | nil =>
      simp only [statement, hpc, Option.some.injEq] at he
      subst he
      apply h.goto (p := s.pendings) (o := s.out) (by rw [hpc]; rfl) (by rw [hpc]; rfl) rfl rfl
      simpa [Installed] using hinst
    | cons x xs =>
      simp only [statement, hpc, Option.some.injEq] at he
      subst he
      refine ⟨?_, fun hf => (by cases hf), fun _ => h.prevSet (by rw [hpc]; rfl),
        fun _ => h.idle (by simp [hpc]), fun _ => h.blocked (by rw [hpc]; rfl),
        fun hs => (by cases hs), h.frames, h.bottom⟩
      simp only [Installed]
      rw [← hinst, List.toFinset_cons, Finset.union_insert, Finset.insert_union]
  | sleep =>
    simp only [statement, hpc, Option.some.injEq] at he
    subst he
    simp only [Installed, hpc] at hinst
    exact h.goto (p := s.pendings) (o := s.out) (by rw [hpc]; rfl) (by rw [hpc]; rfl) rfl rfl hinst
  | sigpending r =>
    simp only [statement, hpc, Option.some.injEq] at he
    subst he
    simp only [Installed, hpc] at hinst
    exact h.goto (o := s.out) (by rw [hpc]; rfl) (by rw [hpc]; rfl) rfl rfl hinst
  | list r i =>
    simp only [statement, hpc, Option.some.injEq] at he
    subst he
    simp only [Installed, hpc] at hinst
    simp only [listStep]
    split_ifs with hi hm
    · exact h.goto (p := s.pendings) (by rw [hpc]; rfl) (by rw [hpc]; rfl) rfl rfl hinst
    · exact h.goto (p := s.pendings) (o := s.out) (by rw [hpc]; rfl) (by rw [hpc]; rfl) rfl rfl
        hinst
    · cases r with
      | before =>
        exact h.goto (p := s.pendings) (o := s.out) (by rw [hpc]; rfl) (by rw [hpc]; rfl) rfl rfl
          hinst
      | after => simp [listStep, hi, ended] at hn'
  | sigsuspend =>
    simp only [statement, hpc, Option.some.injEq] at he
    subst he
    simp only [Installed, hpc] at hinst
    have hframes := h.idle (by simp [hpc])
    refine ⟨hinst, fun hf => (by cases hf), fun _ => h.prevSet (by rw [hpc]; rfl),
      fun hne => absurd rfl hne, fun hm => (by cases hm),
      fun _ => ⟨h.blocked (by rw [hpc]; rfl), Finset.Subset.refl _⟩, fun f hf => ?_,
      fun f hf => ?_⟩
    · simp [hframes] at hf
    · simp [hframes] at hf
  | returned =>
    simp only [statement, hpc] at he
    simp only [Installed, hpc] at hinst
    split_ifs at he
    · obtain rfl := Option.some.inj he
      simp [ended] at hn'
    · obtain rfl := Option.some.inj he
      exact h.goto (p := s.pendings) (o := s.out) (by rw [hpc]; rfl) (by rw [hpc]; rfl) rfl rfl
        hinst
  | after =>
    simp only [statement, hpc, Option.some.injEq] at he
    subst he
    simp only [Installed, hpc] at hinst
    exact h.goto (p := s.pendings) (by rw [hpc]; rfl) (by rw [hpc]; rfl) rfl rfl hinst
  | suspended | ended o => simp [statement, hpc] at he

lemma step_masked (h : Masked e s) (he : step e s l = some s') (hn' : ended s' = false) :
    Masked e s' := by
  simp only [step, Option.ite_none_left_eq_some, Bool.not_eq_true] at he
  obtain ⟨hn, he⟩ := he
  cases l with
  | statement =>
    simp only [Option.ite_none_right_eq_some] at he
    exact statement_masked h he.2 hn'
  | handler => exact handlerStep_masked h he
  | send x =>
    obtain rfl := Option.some.inj he
    exact h.congr rfl
  | deliver x => exact deliver_masked h hn he hn'

end UnixProgramming.SimpleSuspend
