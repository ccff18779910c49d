import UnixProgramming.Library.Transition
import Mathlib.Data.List.Induction

/-! Systems compared by what is observed of their runs. -/

namespace UnixProgramming.Library.Transition

universe u v w

variable {σ τ : Type u} {ι κ : Type v} {α : Type w}

namespace System

/-- The same runs, with what has been observed. -/
def journal (M : System σ ι) (f : σ → ι → Option α) : System (σ × List α) ι :=
  M.record [] fun as s l => as ++ (f s l).toList

/-- Each step is matched by a run, perhaps an empty one, of which the same is observed. -/
structure Simulates (M : System σ ι) (N : System τ κ) (f : σ → ι → Option α)
    (g : τ → κ → Option α) (R : σ → τ → Prop) : Prop where
  initial : ∀ s, M.initial s → ∃ t, N.initial t ∧ R s t
  step : ∀ s l s' t, R s t → M.step s l = some s' →
    ∃ t', R s' t' ∧ ∀ as, (N.journal g).Reaches (t, as) (t', as ++ (f s l).toList)

variable {M : System σ ι} {N : System τ κ} {f : σ → ι → Option α} {g : τ → κ → Option α}
  {R : σ → τ → Prop} {s s' : σ} {t t' : τ} {l : ι} {k : κ} {ks : List κ} {as : List α}

lemma run_concat : N.Run t (ks ++ [k]) t' ↔ ∃ u, N.Run t ks u ∧ N.step u k = some t' := by
  induction ks generalizing t with
  | nil =>
    constructor
    · rintro (_ | ⟨he, ⟨⟩⟩)
      exact ⟨t, .nil t, he⟩
    · rintro ⟨u, ⟨⟩, he⟩
      exact .cons he (.nil t')
  | cons a ks ih =>
    simp only [List.cons_append, run_cons, ih]
    constructor
    · rintro ⟨u, ha, v, hv, hk⟩
      exact ⟨v, ⟨u, ha, hv⟩, hk⟩
    · rintro ⟨v, ⟨u, ha, hv⟩, hk⟩
      exact ⟨u, ha, v, hv, hk⟩

lemma journal_step {q q' : σ × List α} : (M.journal f).step q l = some q' ↔
    M.step q.1 l = some q'.1 ∧ q'.2 = q.2 ++ (f q.1 l).toList :=
  record_step

lemma journal_reaches (he : M.step s l = some s') :
    (M.journal f).Reaches (s, as) (s', as ++ (f s l).toList) :=
  ⟨[l], .cons (journal_step.mpr ⟨he, rfl⟩) (.nil _)⟩

lemma journal_silent (he : M.step s l = some s') (hf : f s l = none) :
    (M.journal f).Reaches (s, as) (s', as) := by
  have hreach : (M.journal f).Reaches (s, as) (s', as ++ (f s l).toList) := journal_reaches he
  simpa [hf] using hreach

lemma journal_initial (h : M.initial s) : (M.journal f).Reachable (s, []) :=
  .initial ⟨h, rfl⟩

lemma reaches_of_journal {bs : List α} (h : (M.journal f).Reaches (s, as) (s', bs)) :
    M.Reaches s s' := by
  have hinv : ∀ q l q', M.Reaches s q.1 → (M.journal f).step q l = some q' → M.Reaches s q'.1 :=
    fun q l q' hq he => hq.trans ⟨[l], .cons (journal_step.mp he).1 (.nil _)⟩
  obtain ⟨ls, hr⟩ := h
  exact hr.keeps (P := fun q => M.Reaches s q.1) hinv .refl

theorem Simulates.observed (h : Simulates M N f g R) (hr : (M.journal f).Reachable (s, as)) :
    ∃ t, (N.journal g).Reachable (t, as) ∧ R s t := by
  have hinv : (M.journal f).Inductive fun q => ∃ t, (N.journal g).Reachable (t, q.2) ∧ R q.1 t := by
    constructor
    · rintro ⟨s, as⟩ ⟨hs, has⟩
      obtain ⟨t, ht, hR⟩ := h.initial s hs
      obtain rfl : as = [] := has
      exact ⟨t, journal_initial ht, hR⟩
    · rintro ⟨s, as⟩ l ⟨s', as'⟩ ⟨t, ht, hR⟩ he
      obtain ⟨he, has⟩ := journal_step.mp he
      obtain rfl : as' = as ++ (f s l).toList := has
      obtain ⟨t', hR', hreach⟩ := h.step s l s' t hR he
      exact ⟨t', ht.reaches (hreach as), hR'⟩
  exact hinv.reachable hr

lemma reachable_labels {ks : List κ} : (N.journal fun _ k => some k).Reachable (t, ks) ↔
    ∃ t₀, N.initial t₀ ∧ N.Run t₀ ks t := by
  constructor
  · intro h
    have hinv : (N.journal fun _ k => some k).Inductive fun q =>
        ∃ t₀, N.initial t₀ ∧ N.Run t₀ q.2 q.1 := by
      constructor
      · rintro ⟨t, ks⟩ ⟨ht, hks⟩
        obtain rfl : ks = [] := hks
        exact ⟨t, ht, .nil t⟩
      · rintro ⟨t, ks⟩ k ⟨t', ks'⟩ ⟨t₀, ht₀, hrun⟩ he
        obtain ⟨he, hks⟩ := journal_step.mp he
        obtain rfl : ks' = ks ++ [k] := hks
        exact ⟨t₀, ht₀, run_concat.mpr ⟨t, hrun, he⟩⟩
    exact hinv.reachable h
  · rintro ⟨t₀, h₀, hrun⟩
    induction ks using List.reverseRecOn generalizing t with
    | nil =>
      cases hrun
      exact journal_initial h₀
    | append_singleton ks k ih =>
      obtain ⟨u, hu, he⟩ := run_concat.mp hrun
      exact (ih hu).reaches (journal_reaches he)

end System

end UnixProgramming.Library.Transition
