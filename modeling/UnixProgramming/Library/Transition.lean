import Mathlib.Logic.Relation
import Mathlib.Data.List.Basic

/-! Systems whose labelled steps are partial functions: finite runs, inductive
invariants, and the exact guard under which a property holds along a run. -/

namespace UnixProgramming.Library.Transition

universe u v

structure System (σ : Type u) (ι : Type v) where
  initial : σ → Prop
  step : σ → ι → Option σ

variable {σ : Type u} {ι : Type v} (M : System σ ι)

inductive System.Run : σ → List ι → σ → Prop
  | nil (s) : System.Run s [] s
  | cons {s t u l ls} : M.step s l = some t → System.Run t ls u → System.Run s (l :: ls) u

def System.Reaches (s t : σ) : Prop :=
  ∃ ls, M.Run s ls t

def System.Reachable (s : σ) : Prop :=
  ∃ s₀, M.initial s₀ ∧ M.Reaches s₀ s

def System.exec : σ → List ι → Option σ
  | s, [] => some s
  | s, l :: ls => (M.step s l).bind fun t => System.exec t ls

structure System.Inductive (P : σ → Prop) : Prop where
  initial : ∀ s, M.initial s → P s
  step : ∀ s l t, P s → M.step s l = some t → P t

variable {M} {s t u : σ} {l : ι} {ls ms : List ι} {P : σ → Prop}

namespace System

lemma Run.append (h : M.Run s ls t) (h' : M.Run t ms u) : M.Run s (ls ++ ms) u := by
  induction h with
  | nil => exact h'
  | cons he _ ih => exact .cons he (ih h')

lemma run_cons : M.Run s (l :: ls) u ↔ ∃ t, M.step s l = some t ∧ M.Run t ls u := by
  constructor
  · rintro (_ | ⟨he, hr⟩)
    exact ⟨_, he, hr⟩
  · rintro ⟨t, he, hr⟩
    exact .cons he hr

lemma run_iff_exec : M.Run s ls t ↔ M.exec s ls = some t := by
  induction ls generalizing s with
  | nil =>
    constructor
    · rintro ⟨⟩
      rfl
    · intro h
      obtain rfl : s = t := by simpa [exec] using h
      exact .nil s
  | cons l ls ih => simp [run_cons, exec, Option.bind_eq_some_iff, ih]

lemma Reaches.refl : M.Reaches s s :=
  ⟨[], .nil s⟩

lemma Reaches.trans (h : M.Reaches s t) (h' : M.Reaches t u) : M.Reaches s u := by
  obtain ⟨ls, hr⟩ := h
  obtain ⟨ms, hr'⟩ := h'
  exact ⟨ls ++ ms, hr.append hr'⟩

lemma Reaches.exec (h : M.exec s ls = some t) : M.Reaches s t :=
  ⟨ls, run_iff_exec.mpr h⟩

lemma Reachable.initial (h : M.initial s) : M.Reachable s :=
  ⟨s, h, .refl⟩

lemma Reachable.reaches (h : M.Reachable s) (hr : M.Reaches s t) : M.Reachable t := by
  obtain ⟨s₀, h₀, hs⟩ := h
  exact ⟨s₀, h₀, hs.trans hr⟩

lemma Reachable.exec {s₀ : σ} (h₀ : M.initial s₀) (he : M.exec s₀ ls = some s) : M.Reachable s :=
  ⟨s₀, h₀, .exec he⟩

lemma exists_run (h : (M.exec s ls).isSome = true) : ∃ t, M.Run s ls t := by
  obtain ⟨t, ht⟩ := Option.isSome_iff_exists.mp h
  exact ⟨t, run_iff_exec.mpr ht⟩

lemma Reachable.observe {α : Type*} {s₀ : σ} {f : σ → α} {a : α} (h₀ : M.initial s₀)
    (h : (M.exec s₀ ls).map f = some a) : ∃ s, M.Reachable s ∧ f s = a := by
  obtain ⟨s, he, hs⟩ := Option.map_eq_some_iff.mp h
  exact ⟨s, .exec h₀ he, hs⟩

lemma Run.keeps (hP : ∀ s l t, P s → M.step s l = some t → P t) (hr : M.Run s ls t) (hs : P s) :
    P t := by
  induction hr with
  | nil => exact hs
  | cons he _ ih => exact ih (hP _ _ _ hs he)

lemma Inductive.run (hP : M.Inductive P) (hs : P s) (hr : M.Run s ls t) : P t :=
  hr.keeps hP.step hs

lemma Run.length_le {μ : σ → ℕ} (hμ : ∀ s l t, M.step s l = some t → μ t < μ s)
    (hr : M.Run s ls t) : ls.length + μ t ≤ μ s := by
  induction hr with
  | nil => simp
  | @cons s t u l ls he _ ih =>
    have hlt := hμ s l t he
    rw [List.length_cons]
    omega

/-- Only the steps `a` add to the measure, each of them one at most. -/
lemma Run.le_add_count [DecidableEq ι] {μ : σ → ℕ} {a : ι}
    (hμ : ∀ s l t, M.step s l = some t → μ t ≤ μ s + if l = a then 1 else 0)
    (hr : M.Run s ls t) : μ t ≤ μ s + ls.count a := by
  induction hr with
  | nil => simp
  | @cons s t u l ls he _ ih =>
    have hle := hμ s l t he
    rw [List.count_cons]
    simp only [beq_iff_eq]
    omega

/-- Each step is paid for by the potential, to which only the steps `a` add. -/
lemma Inductive.length_le [DecidableEq ι] {μ : σ → ℕ} {a : ι} {c : ℕ} (hP : M.Inductive P)
    (hμ : ∀ s l t, P s → M.step s l = some t → μ t + 1 ≤ μ s + if l = a then c else 0)
    (hs : P s) (hr : M.Run s ls t) : ls.length + μ t ≤ μ s + c * ls.count a := by
  induction hr with
  | nil => simp
  | @cons s t u l ls he _ ih =>
    have hle := hμ s l t hs he
    have hrest := ih (hP.step s l t hs he)
    rw [List.length_cons, List.count_cons, Nat.mul_add]
    by_cases hl : l = a
    · simp only [hl, if_true, beq_self_eq_true, Nat.mul_one] at hle ⊢
      omega
    · simp only [hl, if_false, beq_iff_eq, Nat.mul_zero] at hle ⊢
      omega

lemma Inductive.reaches (hP : M.Inductive P) (hs : P s) (h : M.Reaches s t) : P t := by
  obtain ⟨ls, hr⟩ := h
  exact hP.run hs hr

lemma Inductive.reachable (hP : M.Inductive P) (h : M.Reachable s) : P s := by
  obtain ⟨s₀, h₀, ls, hr⟩ := h
  exact hP.run (hP.initial s₀ h₀) hr

/-- As long as the goal is not reached, some step comes closer to it. -/
lemma Inductive.comes {Q : σ → Prop} {μ : σ → ℕ} (hP : M.Inductive P)
    (hμ : ∀ s, P s → ¬ Q s → ∃ l t, M.step s l = some t ∧ μ t < μ s) (hs : P s) :
    ∃ t, M.Reaches s t ∧ Q t := by
  induction hn : μ s using Nat.strongRecOn generalizing s with
  | ind n ih =>
    by_cases hQ : Q s
    · exact ⟨s, .refl, hQ⟩
    · obtain ⟨l, t, he, hlt⟩ := hμ s hs hQ
      obtain ⟨u, hu, hQu⟩ := ih (μ t) (hn ▸ hlt) (hP.step s l t hs he) rfl
      exact ⟨u, Reaches.trans ⟨[l], .cons he (.nil t)⟩ hu, hQu⟩

lemma Inductive.and {Q : σ → Prop} (hP : M.Inductive P)
    (h₀ : ∀ s, M.initial s → Q s)
    (hQ : ∀ s l t, P s → P t → Q s → M.step s l = some t → Q t) :
    M.Inductive fun s => P s ∧ Q s where
  initial s hs := ⟨hP.initial s hs, h₀ s hs⟩
  step s l t hs he := by
    have ht : P t := hP.step s l t hs.1 he
    exact ⟨ht, hQ s l t hs.1 ht hs.2 he⟩

variable (M) in
/-- The same runs, with a history that the steps extend and never read. -/
def record {α : Type*} (a : α) (f : α → σ → ι → α) : System (σ × α) ι where
  initial s := M.initial s.1 ∧ s.2 = a
  step s l := (M.step s.1 l).map fun t => (t, f s.2 s.1 l)

lemma record_step {α : Type*} {a : α} {f : α → σ → ι → α} {r r' : σ × α} :
    (M.record a f).step r l = some r' ↔ M.step r.1 l = some r'.1 ∧ r'.2 = f r.2 r.1 l := by
  simp only [record, Option.map_eq_some_iff]
  constructor
  · rintro ⟨t, ht, rfl⟩
    exact ⟨ht, rfl⟩
  · rintro ⟨ht, hf⟩
    exact ⟨r'.1, ht, Prod.ext rfl hf.symm⟩

lemma Inductive.record {α : Type*} {a : α} {f : α → σ → ι → α} (hP : M.Inductive P) :
    (M.record a f).Inductive fun r => P r.1 where
  initial r hr := hP.initial r.1 hr.1
  step r l r' hr he := hP.step r.1 l r'.1 hr (record_step.mp he).1

lemma Run.record {α : Type*} {a : α} {f : α → σ → ι → α} (h : M.Run s ls t) (b : α) :
    ∃ c, (M.record a f).Run (s, b) ls (t, c) := by
  induction h generalizing b with
  | nil s => exact ⟨b, .nil _⟩
  | @cons s t u l ls he _ ih =>
    obtain ⟨c, hc⟩ := ih (f b s l)
    exact ⟨c, .cons (record_step.mpr ⟨he, rfl⟩) hc⟩

variable (M) in
/-- The same runs, with an input to each step that the step does not read. -/
def attach {κ : Type*} (ok : ι → κ → Bool) : System σ (ι × κ) where
  initial := M.initial
  step s l := if ok l.1 l.2 then M.step s l.1 else none

lemma attach_step {κ : Type*} {ok : ι → κ → Bool} {l : ι × κ} :
    (M.attach ok).step s l = some t ↔ ok l.1 l.2 = true ∧ M.step s l.1 = some t := by
  simp only [attach, Option.ite_none_right_eq_some]

lemma Inductive.attach {κ : Type*} {ok : ι → κ → Bool} (hP : M.Inductive P) :
    (M.attach ok).Inductive P where
  initial := hP.initial
  step s l t hs he := hP.step s l.1 t hs (attach_step.mp he).2

variable (M) in
/-- The same runs, and those that are cut short where `stops` allows it, by the step `none`. -/
def stopping (stops : σ → Bool) : System (Option σ) (Option ι) where
  initial r := ∃ s, r = some s ∧ M.initial s
  step
    | some s, some l => (M.step s l).map some
    | some s, none => if stops s then some none else none
    | none, _ => none

lemma stopping_step {stops : σ → Bool} {r : Option σ} :
    (M.stopping stops).step (some s) (some l) = some r ↔ ∃ t, M.step s l = some t ∧ some t = r :=
  Option.map_eq_some_iff

lemma Inductive.stopping {stops : σ → Bool} (hP : M.Inductive P) :
    (M.stopping stops).Inductive fun r => ∀ s, r = some s → P s where
  initial r hr s hs := by
    obtain ⟨s', rfl, hi⟩ := hr
    exact Option.some.inj hs ▸ hP.initial s' hi
  step r l r' hr he t ht := by
    subst ht
    cases r with
    | none => cases he
    | some s =>
      cases l with
      | none =>
        simp only [System.stopping, Option.ite_none_right_eq_some] at he
        cases he.2
      | some l =>
        obtain ⟨t', ht, hsome⟩ := stopping_step.mp he
        exact Option.some.inj hsome ▸ hP.step s l t' (hr s rfl) ht

lemma Reaches.stopping {stops : σ → Bool} (h : M.Reaches s t) :
    (M.stopping stops).Reaches (some s) (some t) := by
  obtain ⟨ls, hr⟩ := h
  refine ⟨ls.map some, ?_⟩
  induction hr with
  | nil s => exact .nil _
  | cons he _ ih => exact .cons (stopping_step.mpr ⟨_, he, rfl⟩) ih

lemma Reachable.stopping {stops : σ → Bool} (h : M.Reachable s) :
    (M.stopping stops).Reachable (some s) := by
  obtain ⟨s₀, h₀, hr⟩ := h
  exact ⟨some s₀, ⟨s₀, rfl, h₀⟩, hr.stopping⟩

variable (M) in
def Along (P : σ → Prop) : σ → List ι → Prop
  | s, [] => P s
  | s, l :: ls => P s ∧ ∀ t, M.step s l = some t → Along P t ls

variable (M) in
def Guarded (C : σ → ι → Prop) : σ → List ι → Prop
  | _, [] => True
  | s, l :: ls => C s l ∧ ∀ t, M.step s l = some t → Guarded C t ls

variable {C : σ → ι → Prop} {K : σ → Prop}

instance decidableGuarded [∀ s l, Decidable (C s l)] : ∀ s ls, Decidable (M.Guarded C s ls)
  | _, [] => isTrue trivial
  | s, l :: ls =>
    match h : M.step s l with
    | none => decidable_of_iff (C s l) (by simp [Guarded, h])
    | some t =>
      have := decidableGuarded t ls
      decidable_of_iff (C s l ∧ M.Guarded C t ls) (by simp [Guarded, h])

lemma Along.first (h : M.Along P s ls) : P s := by
  cases ls with
  | nil => exact h
  | cons l ls => exact h.1

lemma step_unique {t : σ} (he : M.step s l = some t) : ∀ r, M.step s l = some r → r = t := by
  intro r hr
  rw [he] at hr
  exact (Option.some.inj hr).symm

lemma Guarded.along (hKP : ∀ s, K s → P s)
    (hK : ∀ s l t, K s → C s l → M.step s l = some t → K t)
    (hs : K s) (hr : M.Run s ls t) (hg : M.Guarded C s ls) : M.Along P s ls := by
  induction hr with
  | nil s => exact hKP s hs
  | @cons s t _ l ls he _ ih =>
    obtain ⟨hc, hg⟩ := hg
    refine ⟨hKP s hs, fun r hr => ?_⟩
    obtain rfl := step_unique he r hr
    exact ih (hK s l r hs hc he) (hg r he)

lemma Along.guarded (hK : ∀ s l t, K s → C s l → M.step s l = some t → K t)
    (hbad : ∀ s l t, K s → ¬ C s l → M.step s l = some t → ¬ P t)
    (hs : K s) (hr : M.Run s ls t) (ha : M.Along P s ls) : M.Guarded C s ls := by
  induction hr with
  | nil => trivial
  | @cons s t _ l ls he _ ih =>
    have hc : C s l := by
      by_contra hc
      exact hbad s l t hs hc he (ha.2 t he).first
    refine ⟨hc, fun r hr => ?_⟩
    obtain rfl := step_unique he r hr
    exact ih (hK s l r hs hc he) (ha.2 r he)

lemma run_unique {t' : σ} (h : M.Run s ls t) (h' : M.Run s ls t') : t = t' := by
  rw [run_iff_exec] at h h'
  exact Option.some.inj (h.symm.trans h')

/-- A run is followed by the run without its silent steps, as long as the guarded silent
steps keep the relation. -/
theorem Run.silenced {R : σ → σ → Prop} {silent : ι → Bool}
    (hsilent : ∀ s l t s₀, R s s₀ → C s l → silent l = true → M.step s l = some t → R t s₀)
    (hstep : ∀ s l t s₀, R s s₀ → silent l = false → M.step s l = some t →
      ∃ t₀, M.step s₀ l = some t₀ ∧ R t t₀)
    (hr : M.Run s ls t) (hg : M.Guarded C s ls) {s₀ : σ} (h : R s s₀) :
    ∃ t₀, M.Run s₀ (ls.filter fun l => !silent l) t₀ ∧ R t t₀ := by
  induction hr generalizing s₀ with
  | nil s => exact ⟨s₀, .nil s₀, h⟩
  | @cons s t u l ls he _ ih =>
    obtain ⟨hc, hg⟩ := hg
    cases hl : silent l with
    | true =>
      rw [List.filter_cons_of_neg (by simp [hl])]
      exact ih (hg t he) (hsilent s l t s₀ h hc hl he)
    | false =>
      obtain ⟨t₀, he₀, ht⟩ := hstep s l t s₀ h hl he
      obtain ⟨u₀, hr₀, hu⟩ := ih (hg t he) ht
      rw [List.filter_cons_of_pos (by simp [hl])]
      exact ⟨u₀, .cons he₀ hr₀, hu⟩

/-- The guard is exact: `K` implies the property and is kept by the guarded
steps, while a step outside the guard leads to a state without the property. -/
theorem along_iff_guarded (hKP : ∀ s, K s → P s)
    (hK : ∀ s l t, K s → C s l → M.step s l = some t → K t)
    (hbad : ∀ s l t, K s → ¬ C s l → M.step s l = some t → ¬ P t)
    (hs : K s) (hr : M.Run s ls t) : M.Along P s ls ↔ M.Guarded C s ls :=
  ⟨fun ha => ha.guarded hK hbad hs hr, fun hg => hg.along hKP hK hs hr⟩

end System

end UnixProgramming.Library.Transition
