import UnixProgramming.ThreadServer.Steps

/-! The flag `on` as a lock on the slots: who may use a slot, and whose
connection its descriptor denotes. -/

namespace UnixProgramming.ThreadServer

open Library Library.Transition

variable {s s' : State} {t u : ℕ} {w v : Worker} {i : Slot} {m : MainPc}

-- The worker has not executed its `on = 0`.
def WorkerPc.live : WorkerPc → Bool
  | .start | .read | .failed | .closing | .reply | .clear => true
  | .raise | .raised | .exited | .returned => false

def WorkerPc.holding : WorkerPc → Bool
  | .start | .read | .closing | .reply => true
  | .failed | .clear | .raise | .raised | .exited | .returned => false

def MainPc.claims (i : Slot) : MainPc → Prop
  | .accept j | .retry j | .create j | .assign j => j = i
  | .scan _ | .detach _ | .busy | .suspended => False

structure Exclusive (s : State) : Prop where
  flag : ∀ i, (s.socks i).on = 0 ∨ (s.socks i).on = 1
  spawned : ∀ t, s.spawned ≤ t → s.threads t = none
  free : ∀ i, s.main.claims i → (s.socks i).on = 0
  busy : ∀ t w, s.threads t = some w → w.pc.live = true →
    (s.socks w.slot).on = 1 ∨ s.main = .assign w.slot
  unique : ∀ t u w v, s.threads t = some w → s.threads u = some v →
    w.pc.live = true → v.pc.live = true → w.slot = v.slot → t = u

lemma Exclusive.main_moves (h : Exclusive s) (hc : ∀ i, m.claims i → (s.socks i).on = 0)
    (ha : ∀ i, s.main ≠ .assign i) : Exclusive { s with main := m } where
  flag := h.flag
  spawned := h.spawned
  free := hc
  busy t w ht hl := by
    rcases h.busy t w ht hl with hon | hm
    · exact Or.inl hon
    · exact absurd hm (ha _)
  unique := h.unique

lemma Exclusive.advance (h : Exclusive s) {pc : WorkerPc} (ht : s.threads t = some w)
    (hl : pc.live = true → w.pc.live = true) : Exclusive (s.setWorker t { w with pc := pc }) where
  flag := h.flag
  spawned u hu := by
    have hne : u ≠ t := by
      rintro rfl
      simp [h.spawned u hu] at ht
    simpa [hne] using h.spawned u hu
  free := h.free
  busy u v hu hv := by
    rcases update_worker.mp hu with ⟨-, rfl⟩ | ⟨-, hu⟩
    · exact h.busy t w ht (hl hv)
    · exact h.busy u v hu hv
  unique a b x y ha hb hx hy hs := by
    rcases update_worker.mp ha with ⟨hat, rfl⟩ | ⟨-, ha'⟩ <;>
      rcases update_worker.mp hb with ⟨hbt, rfl⟩ | ⟨-, hb'⟩
    · exact hat.trans hbt.symm
    · exact hat.trans (h.unique t b w y ht hb' (hl hx) hy hs)
    · exact (h.unique a t x w ha' ht hx (hl hy) hs).trans hbt.symm
    · exact h.unique a b x y ha' hb' hx hy hs

lemma Exclusive.release (h : Exclusive s) {pc : WorkerPc} (ht : s.threads t = some w)
    (hl : w.pc.live = true) (hd : pc.live = false) :
    Exclusive ((s.setOn w.slot 0).setWorker t { w with pc := pc }) := by
  have h' : Exclusive (s.setWorker t { w with pc := pc }) := h.advance ht fun _ => hl
  refine ⟨fun i => ?_, h'.spawned, fun i hi => ?_, fun u v hu hv => ?_, h'.unique⟩
  · by_cases hi : i = w.slot
    · simp [State.setOn, hi]
    · simpa [State.setOn, hi] using h.flag i
  · by_cases hw : i = w.slot
    · simp [State.setOn, hw]
    · simpa [State.setOn, hw] using h.free i hi
  · have hne : v.slot ≠ w.slot := by
      intro hs
      rcases update_worker.mp hu with ⟨-, rfl⟩ | ⟨hut, hu'⟩
      · exact absurd hv (by rw [hd]; decide)
      · exact hut (h.unique _ _ _ _ hu' ht hv hl hs)
    simpa [State.setOn, hne] using h'.busy u v hu hv

lemma Exclusive.congr (h : Exclusive s) (ho : ∀ i, (s'.socks i).on = (s.socks i).on)
    (ht : s'.threads = s.threads) (hn : s'.spawned = s.spawned) (hm : s'.main = s.main) :
    Exclusive s' := by
  obtain ⟨h₁, h₂, h₃, h₄, h₅⟩ := h
  refine ⟨fun i => by rw [ho]; exact h₁ i, by rwa [hn, ht], fun i hi => ?_, ?_, by rwa [ht]⟩
  · rw [ho]
    exact h₃ i (hm ▸ hi)
  · intro t w hw hl
    rw [ho, hm]
    exact h₄ t w (ht ▸ hw) hl

lemma start_exclusive (lfd : ℤ) (inherited : Finset ℤ) : Exclusive (start lfd inherited) where
  flag _ := Or.inl rfl
  spawned _ _ := rfl
  free _ hi := hi.elim
  busy _ _ ht := by cases ht
  unique _ _ _ _ ht := by cases ht

lemma mainStep_exclusive (h : Exclusive s) (he : mainStep s = some s') : Exclusive s' := by
  cases mainStep_cases he with
  | @finds i hi hm hon =>
    apply h.main_moves
    · intro j hj
      obtain rfl : (⟨i, hi⟩ : Slot) = j := hj
      exact hon
    · simp [hm]
  | passes hm | fills hm | detaches hm | suspends hm =>
    apply h.main_moves
    · exact fun j hj => hj.elim
    · simp [hm]
  | @assigns i hm =>
    refine ⟨fun j => ?_, h.spawned, fun j hj => hj.elim, fun t w ht hl => Or.inl ?_, h.unique⟩
    · by_cases hj : j = i
      · simp [State.setOn, hj]
      · simpa [State.setOn, hj] using h.flag j
    · by_cases hj : w.slot = i
      · simp [State.setOn, hj]
      · rcases h.busy t w ht hl with hon | hs
        · simpa [State.setOn, hj] using hon
        · rw [hm] at hs
          cases hs
          exact absurd rfl hj

lemma acceptStep_exclusive {ret : ℤ} {addr : ℕ} (h : Exclusive s)
    (he : acceptStep s ret addr = some s') : Exclusive s' := by
  obtain ⟨i, r, hr, hs⟩ := acceptStep_cases he
  obtain ⟨ht, hn, hm, ho, -⟩ := acceptInto_frame hr
  have hr' : Exclusive r := h.congr ho ht hn hm
  have hfree : (r.socks i).on = 0 := by
    rw [ho]
    rcases hs with ⟨hs, -⟩ | ⟨hs, -⟩ <;> exact h.free i (by rw [hs]; rfl)
  have ha : ∀ j, r.main ≠ .assign j := by
    intro j hj
    rw [hm] at hj
    rcases hs with ⟨hs, -⟩ | ⟨hs, -⟩ <;> · rw [hs] at hj; cases hj
  rcases hs with ⟨-, rfl⟩ | ⟨-, rfl⟩
  · refine hr'.main_moves (fun j hj => ?_) ha
    split_ifs at hj <;> · obtain rfl : i = j := hj; exact hfree
  · refine hr'.main_moves (fun j hj => ?_) ha
    obtain rfl : i = j := hj
    exact hfree

lemma createStep_exclusive (h : Exclusive s) (he : createStep s = some s') : Exclusive s' := by
  obtain ⟨i, hm, rfl⟩ := createStep_cases he
  have hfree : (s.socks i).on = 0 := h.free i (by rw [hm]; rfl)
  -- no worker of the slot is live, for its flag would be set
  have hnone : ∀ t w, s.threads t = some w → w.pc.live = true → w.slot ≠ i := by
    rintro t w ht hl rfl
    rcases h.busy t w ht hl with hon | hs
    · omega
    · rw [hm] at hs
      cases hs
  have hon : ∀ j, ((s.setSock i { s.socks i with tid := s.spawned }).socks j).on =
      (s.socks j).on := by
    intro j
    by_cases hj : j = i <;> simp [hj]
  refine ⟨fun j => ?_, fun t ht => ?_, fun j hj => ?_, fun t w ht hl => ?_,
    fun t u w v ht hu hw hv hs => ?_⟩
  · exact (hon j).symm ▸ h.flag j
  · have hne : t ≠ s.spawned := fun he => by
      dsimp only at ht
      omega
    simpa [hne] using h.spawned t (by dsimp only at ht; omega)
  · obtain rfl : i = j := hj
    exact (hon i).trans hfree
  · rcases update_worker.mp ht with ⟨-, rfl⟩ | ⟨-, ht⟩
    · exact Or.inr rfl
    · rcases h.busy t w ht hl with hw | hs
      · exact Or.inl ((hon _).trans hw)
      · rw [hm] at hs
        cases hs
  · rcases update_worker.mp ht with ⟨htn, rfl⟩ | ⟨-, ht'⟩ <;>
      rcases update_worker.mp hu with ⟨hun, rfl⟩ | ⟨-, hu'⟩
    · exact htn.trans hun.symm
    · exact absurd hs.symm (hnone u v hu' hv)
    · exact absurd hs (hnone t w ht' hw)
    · exact h.unique t u w v ht' hu' hw hv hs

lemma workerStep_exclusive (h : Exclusive s) (ht : s.threads t = some w)
    (he : workerStep s t w = some s') : Exclusive s' := by
  cases workerStep_cases he with
  | starts hpc =>
    apply h.advance ht
    rw [hpc]
    decide
  | frees hpc =>
    apply h.release ht
    · rcases hpc with ⟨hpc, -⟩ | ⟨hpc, -⟩ <;> · rw [hpc]; rfl
    · rcases hpc with ⟨-, rfl⟩ | ⟨-, rfl⟩ <;> rfl
  | closes hpc =>
    have h' : Exclusive (s.setWorker t { w with pc := .clear }) := by
      apply h.advance ht
      rw [hpc]
      decide
    exact h'.congr (fun _ => rfl) rfl rfl rfl
  | raises =>
    have h' : Exclusive (s.setWorker t { w with pc := .raised }) :=
      h.advance ht fun hl => by cases hl
    exact h'.congr (fun _ => rfl) rfl rfl rfl
  | returns => exact h.advance ht fun hl => by cases hl

lemma deliverStep_exclusive {t : Thread} (h : Exclusive s) (he : deliverStep s t = some s') :
    Exclusive s' := by
  obtain ⟨target, -, -, -, rfl⟩ := deliverStep_cases he
  have h' : Exclusive (s.setPending target false) := h.congr (fun _ => rfl) rfl rfl rfl
  split_ifs with hm
  · refine h'.main_moves (fun j hj => hj.elim) fun j hj => ?_
    rw [State.setPending_main, hm.2] at hj
    cases hj
  · exact h'

lemma exclusive_inductive (lfd : ℤ) (inherited : Finset ℤ) :
    (system lfd inherited).Inductive Exclusive where
  initial := by
    rintro _ rfl
    exact start_exclusive lfd inherited
  step s l s' h he := by
    obtain ⟨-, hm⟩ := step_cases he
    cases hm with
    | main hm => exact mainStep_exclusive h hm
    | accept hm => exact acceptStep_exclusive h hm
    | create hm => exact createStep_exclusive h hm
    | dies => exact h.congr (fun _ => rfl) rfl rfl rfl
    | worker ht hw => exact workerStep_exclusive h ht hw
    | read ht hpc => exact h.advance ht fun _ => by rw [hpc]; rfl
    | write ht hpc => exact h.advance ht fun _ => by rw [hpc]; rfl
    | kill => exact h.congr (fun _ => rfl) rfl rfl rfl
    | deliver hd => exact deliverStep_exclusive h hd

end UnixProgramming.ThreadServer
