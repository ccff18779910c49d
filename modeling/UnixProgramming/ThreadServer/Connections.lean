import UnixProgramming.ThreadServer.Slots

/-! Each worker reads, writes and closes only the connection it was created for. -/

namespace UnixProgramming.ThreadServer

open Library Library.Transition

variable {s s' : State} {t u : ℕ} {w v : Worker} {i : Slot} {m : MainPc}

structure Owned (s : State) : Prop where
  created : ∀ i, s.main = .create i → ∃ n, s.fds.file (s.socks i).cfd = some (.connection n) ∧
    ∀ t w, s.threads t = some w → w.conn ≠ some (.connection n)
  handed : ∀ t w, s.threads t = some w → ∃ n, w.conn = some (.connection n) ∧ n < s.fds.accepted
  distinct : ∀ t u w v, s.threads t = some w → s.threads u = some v → w.conn = v.conn → t = u
  holding : ∀ t w, s.threads t = some w → w.pc.holding = true →
    s.fds.file (s.socks w.slot).cfd = w.conn

lemma start_owned (lfd : ℤ) (inherited : Finset ℤ) : Owned (start lfd inherited) where
  created _ hm := by cases hm
  handed _ _ ht := by cases ht
  distinct _ _ _ _ ht := by cases ht
  holding _ _ ht := by cases ht

lemma Owned.congr (h : Owned s) (hc : ∀ i, (s'.socks i).cfd = (s.socks i).cfd)
    (ht : s'.threads = s.threads) (hf : s'.fds = s.fds)
    (hm : ∀ i, s'.main = .create i → s.main = .create i) : Owned s' := by
  obtain ⟨h₁, h₂, h₃, h₄⟩ := h
  refine ⟨fun i hi => ?_, by rwa [ht, hf], by rwa [ht], fun t w hw hh => ?_⟩
  · rw [hf, hc, ht]
    exact h₁ i (hm i hi)
  · rw [hf, hc]
    exact h₄ t w (ht ▸ hw) hh

lemma Owned.advance (h : Owned s) {pc : WorkerPc} {fds : Descriptors} (ht : s.threads t = some w)
    (hh : pc.holding = true → w.pc.holding = true ∧ fds = s.fds)
    (hf : fds = s.fds ∨ w.pc.holding = true ∧ fds = s.fds.close (s.socks w.slot).cfd) :
    Owned { s.setWorker t { w with pc := pc } with fds := fds } := by
  -- a descriptor that denotes another connection is not the one closed
  have hkeep : ∀ fd, s.fds.file fd ≠ w.conn → fds.file fd = s.fds.file fd := by
    intro fd hne
    rcases hf with rfl | ⟨hw, rfl⟩
    · rfl
    · apply Descriptors.close_file_ne
      rintro rfl
      exact hne (h.holding t w ht hw)
  have hacc : fds.accepted = s.fds.accepted := by
    rcases hf with rfl | ⟨-, rfl⟩ <;> rfl
  refine ⟨fun i hi => ?_, fun u v hu => ?_, fun a b x y ha hb hxy => ?_, fun u v hu hv => ?_⟩
  · obtain ⟨n, hn, hnone⟩ := h.created i hi
    refine ⟨n, ?_, fun u v hu => ?_⟩
    · rw [hkeep _ (hn ▸ (hnone t w ht).symm)]
      exact hn
    · rcases update_worker.mp hu with ⟨-, rfl⟩ | ⟨-, hu⟩
      · exact hnone t w ht
      · exact hnone u v hu
  · dsimp only
    rw [hacc]
    rcases update_worker.mp hu with ⟨-, rfl⟩ | ⟨-, hu⟩
    · exact h.handed t w ht
    · exact h.handed u v hu
  · rcases update_worker.mp ha with ⟨hat, rfl⟩ | ⟨-, ha'⟩ <;>
      rcases update_worker.mp hb with ⟨hbt, rfl⟩ | ⟨-, hb'⟩
    · exact hat.trans hbt.symm
    · exact hat.trans (h.distinct t b w y ht hb' hxy)
    · exact (h.distinct a t x w ha' ht hxy).trans hbt.symm
    · exact h.distinct a b x y ha' hb' hxy
  · rcases update_worker.mp hu with ⟨-, rfl⟩ | ⟨hut, hu'⟩
    · obtain ⟨hw, hfds⟩ := hh hv
      simp only [hfds]
      exact h.holding t w ht hw
    · have hv' : s.fds.file (s.socks v.slot).cfd = v.conn := h.holding u v hu' hv
      have hne : s.fds.file (s.socks v.slot).cfd ≠ w.conn := by
        rw [hv']
        exact fun hc => hut (h.distinct u t v w hu' ht hc)
      exact (hkeep _ hne).trans hv'

lemma mainStep_frame (he : mainStep s = some s') :
    s'.threads = s.threads ∧ s'.fds = s.fds ∧
      (∀ i, (s'.socks i).cfd = (s.socks i).cfd ∧ (s'.socks i).addr = (s.socks i).addr) ∧
      ∀ i, s'.main ≠ .create i := by
  cases mainStep_cases he with
  | @assigns i =>
    refine ⟨rfl, rfl, fun j => ?_, fun _ hj => by cases hj⟩
    by_cases hj : j = i <;> simp [State.setOn, hj]
  | finds | passes | fills | detaches | suspends =>
    exact ⟨rfl, rfl, fun _ => ⟨rfl, rfl⟩, fun _ hj => by cases hj⟩

lemma claimed_not_live (h : Exclusive s) (hc : s.main.claims i) (hne : s.main ≠ .assign i)
    (ht : s.threads t = some w) (hl : w.pc.live = true) : w.slot ≠ i := by
  rintro rfl
  have hfree : (s.socks w.slot).on = 0 := h.free _ hc
  rcases h.busy t w ht hl with hon | hm
  · omega
  · exact hne hm

lemma holding_live {pc : WorkerPc} (h : pc.holding = true) : pc.live = true := by
  cases pc <;> first | rfl | cases h

lemma acceptInto_fds {ret : ℤ} {addr : ℕ} (he : acceptInto s i ret addr = some s') :
    ret = -1 ∧ s'.fds = s.fds ∨ ret ≠ -1 ∧ s.fds.accept ret = some s'.fds ∧
      (s'.socks i).cfd = ret := by
  simp only [acceptInto] at he
  split_ifs at he with hr
  · obtain rfl := Option.some.inj he
    exact Or.inl ⟨hr, rfl⟩
  · obtain ⟨fds, hf, rfl⟩ := Option.map_eq_some_iff.mp he
    exact Or.inr ⟨hr, hf, by simp⟩

lemma acceptStep_owned {ret : ℤ} {addr : ℕ} (hx : Exclusive s) (h : Owned s)
    (he : acceptStep s ret addr = some s') : Owned s' := by
  obtain ⟨i, r, hr, hs⟩ := acceptStep_cases he
  obtain ⟨ht, -, -, -, hother⟩ := acceptInto_frame hr
  have hslot : ∀ t w, s.threads t = some w → w.pc.holding = true → w.slot ≠ i := by
    intro t w htw hw
    apply claimed_not_live hx _ _ htw (holding_live hw)
    · rcases hs with ⟨hm, -⟩ | ⟨hm, -⟩ <;> · rw [hm]; rfl
    · rcases hs with ⟨hm, -⟩ | ⟨hm, -⟩ <;> · rw [hm]; exact fun hc => by cases hc
  -- an accepted descriptor was not open, so those in use keep their files
  have hkeep : ∀ fd f, s.fds.file fd = some f → r.fds.file fd = some f := by
    intro fd f hfd
    rcases acceptInto_fds hr with ⟨-, hf⟩ | ⟨-, hf, -⟩
    · rwa [hf]
    · exact Descriptors.accept_file_open hf hfd
  have hacc : s.fds.accepted ≤ r.fds.accepted := by
    rcases acceptInto_fds hr with ⟨-, hf⟩ | ⟨-, hf, -⟩
    · rw [hf]
    · rw [Descriptors.accept_accepted hf]
      exact Nat.le_succ _
  have hkey : ∀ m', (∀ j, m' = MainPc.create j → j = i ∧ ret ≠ -1) →
      Owned { r with main := m' } := by
    intro m' hm'
    refine ⟨fun j hj => ?_, fun t w htw => ?_, ?_, fun t w htw hw => ?_⟩
    · obtain ⟨rfl, hret⟩ := hm' j hj
      rcases acceptInto_fds hr with ⟨hn, -⟩ | ⟨-, hf, hcfd⟩
      · exact absurd hn hret
      · refine ⟨s.fds.accepted, ?_, fun t w htw hconn => ?_⟩
        · dsimp only
          rw [hcfd]
          exact Descriptors.accept_file_self hf
        · obtain ⟨n, hn, hlt⟩ := h.handed t w (ht ▸ htw)
          rw [hn] at hconn
          cases hconn
          exact absurd hlt (lt_irrefl _)
    · obtain ⟨n, hn, hlt⟩ := h.handed t w (ht ▸ htw)
      exact ⟨n, hn, hlt.trans_le hacc⟩
    · dsimp only
      rw [ht]
      exact h.distinct
    · have htw' : s.threads t = some w := ht ▸ htw
      obtain ⟨n, hn, -⟩ := h.handed t w htw'
      dsimp only
      rw [hother _ (hslot t w htw' hw), hn]
      exact hkeep _ _ ((h.holding t w htw' hw).trans hn)
  rcases hs with ⟨-, rfl⟩ | ⟨-, rfl⟩
  · apply hkey
    intro j hj
    split_ifs at hj with hret
    cases hj
    exact ⟨rfl, hret⟩
  · apply hkey
    intro j hj
    cases hj

lemma createStep_owned (h : Owned s) (he : createStep s = some s') : Owned s' := by
  obtain ⟨i, hm, rfl⟩ := createStep_cases he
  obtain ⟨n, hn, hnone⟩ := h.created i hm
  have hcfd : ∀ j, ((s.setSock i { s.socks i with tid := s.spawned }).socks j).cfd =
      (s.socks j).cfd := by
    intro j
    by_cases hj : j = i <;> simp [hj]
  refine ⟨fun j hj => (by cases hj), fun t w ht => ?_, fun t u w v ht hu hc => ?_,
    fun t w ht hw => ?_⟩
  · rcases update_worker.mp ht with ⟨-, rfl⟩ | ⟨-, ht⟩
    · exact ⟨n, hn, s.fds.fresh _ n hn⟩
    · exact h.handed t w ht
  · rcases update_worker.mp ht with ⟨htn, rfl⟩ | ⟨-, ht'⟩ <;>
      rcases update_worker.mp hu with ⟨hun, rfl⟩ | ⟨-, hu'⟩
    · exact htn.trans hun.symm
    · exact absurd (hc.symm.trans hn) (hnone u v hu')
    · exact absurd (hc.trans hn) (hnone t w ht')
    · exact h.distinct t u w v ht' hu' hc
  · rcases update_worker.mp ht with ⟨-, rfl⟩ | ⟨-, ht⟩
    · exact congrArg s.fds.file (hcfd i)
    · exact (congrArg s.fds.file (hcfd _)).trans (h.holding t w ht hw)

lemma workerStep_owned (h : Owned s) (ht : s.threads t = some w)
    (he : workerStep s t w = some s') : Owned s' := by
  cases workerStep_cases he with
  | starts hpc => exact h.advance ht (fun _ => ⟨by rw [hpc]; rfl, rfl⟩) (Or.inl rfl)
  | frees hpc =>
    have h₀ : Owned (s.setOn w.slot 0) := by
      refine h.congr (fun j => ?_) rfl rfl fun _ hi => hi
      by_cases hj : j = w.slot <;> simp [State.setOn, hj]
    refine h₀.advance ht (fun hh => ?_) (Or.inl rfl)
    rcases hpc with ⟨-, rfl⟩ | ⟨-, rfl⟩ <;> cases hh
  | closes hpc =>
    exact h.advance ht (fun hh => by cases hh) (Or.inr ⟨by rw [hpc]; rfl, rfl⟩)
  | raises =>
    have h₀ : Owned (s.setPending (raiseTarget t) true) :=
      h.congr (fun _ => rfl) rfl rfl fun _ hi => hi
    exact h₀.advance ht (fun hh => by cases hh) (Or.inl rfl)
  | returns => exact h.advance ht (fun hh => by cases hh) (Or.inl rfl)

lemma deliverStep_owned {t : Thread} (h : Owned s) (he : deliverStep s t = some s') :
    Owned s' := by
  obtain ⟨target, -, -, -, rfl⟩ := deliverStep_cases he
  refine h.congr (fun _ => rfl) rfl rfl fun i hi => ?_
  dsimp only at hi
  split_ifs at hi
  exact hi

lemma owned_inductive (lfd : ℤ) (inherited : Finset ℤ) :
    (system lfd inherited).Inductive fun s => Exclusive s ∧ Owned s := by
  apply (exclusive_inductive lfd inherited).and
  · rintro _ rfl
    exact start_owned lfd inherited
  · intro s l s' hx _ h he
    obtain ⟨-, hm⟩ := step_cases he
    cases hm with
    | main hm =>
      obtain ⟨ht, hf, hs, hc⟩ := mainStep_frame hm
      exact h.congr (fun i => (hs i).1) ht hf fun i hi => absurd hi (hc i)
    | accept hm => exact acceptStep_owned hx h hm
    | create hm => exact createStep_owned h hm
    | dies => exact h.congr (fun _ => rfl) rfl rfl fun _ hi => hi
    | worker ht hw => exact workerStep_owned h ht hw
    | read ht hpc => exact h.advance ht (fun _ => ⟨by rw [hpc]; rfl, rfl⟩) (Or.inl rfl)
    | write ht hpc => exact h.advance ht (fun _ => ⟨by rw [hpc]; rfl, rfl⟩) (Or.inl rfl)
    | kill => exact h.congr (fun _ => rfl) rfl rfl fun _ hi => hi
    | deliver hd => exact deliverStep_owned h hd

lemma step_keeps_sock {l : Label} (hx : Exclusive s) (he : step s l = some s')
    (ht : s.threads t = some w) (hl : w.pc.live = true) :
    (s'.socks w.slot).cfd = (s.socks w.slot).cfd ∧
      (s'.socks w.slot).addr = (s.socks w.slot).addr := by
  have hon : ∀ j, ((s.setOn j 0).socks w.slot).cfd = (s.socks w.slot).cfd ∧
      ((s.setOn j 0).socks w.slot).addr = (s.socks w.slot).addr := by
    intro j
    by_cases hj : w.slot = j <;> simp [State.setOn, hj]
  obtain ⟨-, hm⟩ := step_cases he
  cases hm with
  | main hm =>
    obtain ⟨-, -, hs, -⟩ := mainStep_frame hm
    exact hs w.slot
  | accept hm =>
    obtain ⟨i, r, hr, hs⟩ := acceptStep_cases hm
    obtain ⟨-, -, -, -, hother⟩ := acceptInto_frame hr
    have hne : w.slot ≠ i := by
      apply claimed_not_live hx _ _ ht hl
      · rcases hs with ⟨hs, -⟩ | ⟨hs, -⟩ <;> · rw [hs]; rfl
      · rcases hs with ⟨hs, -⟩ | ⟨hs, -⟩ <;> · rw [hs]; exact fun hc => by cases hc
    rcases hs with ⟨-, rfl⟩ | ⟨-, rfl⟩ <;>
      exact ⟨congrArg SockInfo.cfd (hother _ hne), congrArg SockInfo.addr (hother _ hne)⟩
  | create hm =>
    obtain ⟨i, -, rfl⟩ := createStep_cases hm
    by_cases hj : w.slot = i <;> simp [hj]
  | @worker _ v _ _ hw =>
    cases workerStep_cases hw with
    | frees => exact hon v.slot
    | starts | closes | raises | returns => exact ⟨rfl, rfl⟩
  | deliver hd =>
    obtain ⟨_, -, -, -, rfl⟩ := deliverStep_cases hd
    exact ⟨rfl, rfl⟩
  | dies | read | write | kill => exact ⟨rfl, rfl⟩

lemma live_card_le (h : Exclusive s) (T : Finset ℕ)
    (hT : ∀ t ∈ T, ∃ w, s.threads t = some w ∧ w.pc.live = true) : T.card ≤ THREAD_LIMIT := by
  have hinj : Set.InjOn (fun t => (s.threads t).map Worker.slot) T := by
    intro t ht u hu hs
    obtain ⟨w, hw, hlw⟩ := hT t ht
    obtain ⟨v, hv, hlv⟩ := hT u hu
    simp only [hw, hv, Option.map_some, Option.some.injEq] at hs
    exact h.unique t u w v hw hv hlw hlv hs
  have hmaps : Set.MapsTo (fun t => (s.threads t).map Worker.slot) T
      (Finset.univ.map Function.Embedding.some : Finset (Option Slot)) := by
    intro t ht
    obtain ⟨w, hw, -⟩ := hT t ht
    simp [hw]
  calc T.card ≤ (Finset.univ.map Function.Embedding.some : Finset (Option Slot)).card :=
        Finset.card_le_card_of_injOn _ hmaps hinj
    _ = THREAD_LIMIT := by simp

theorem workers_exclusive (lfd : ℤ) (inherited : Finset ℤ) (s : State)
    (h : (system lfd inherited).Reachable s) :
    (∀ t u w v, s.threads t = some w → s.threads u = some v → w.pc.live = true →
      v.pc.live = true → w.slot = v.slot → t = u) ∧
    (∀ T : Finset ℕ, (∀ t ∈ T, ∃ w, s.threads t = some w ∧ w.pc.live = true) →
      T.card ≤ THREAD_LIMIT) ∧
    (∀ l s' t w, step s l = some s' → s.threads t = some w → w.pc.live = true →
      (s'.socks w.slot).cfd = (s.socks w.slot).cfd ∧
        (s'.socks w.slot).addr = (s.socks w.slot).addr) ∧
    (∀ t w, s.threads t = some w → w.pc.holding = true → ∃ n, w.conn = some (.connection n) ∧
      s.fds.file (s.socks w.slot).cfd = some (.connection n)) := by
  obtain ⟨hx, ho⟩ := (owned_inductive lfd inherited).reachable h
  refine ⟨hx.unique, live_card_le hx, fun l s' t w he ht hl => step_keeps_sock hx he ht hl,
    fun t w ht hw => ?_⟩
  obtain ⟨n, hn, -⟩ := ho.handed t w ht
  exact ⟨n, hn, (ho.holding t w ht hw).trans hn⟩

theorem workers_exclusive_one : ∃ s, (system 3 {0, 1, 2}).Reachable s ∧
    s.threads 0 = some ⟨0, some (.connection 0), .read⟩ ∧
    ∃ n, some (File.connection 0) = some (.connection n) ∧
      s.fds.file (s.socks 0).cfd = some (.connection n) := by
  have hrun : ((system 3 {0, 1, 2}).exec (start 3 {0, 1, 2})
      [.main, .accept 5 7, .create, .main, .main, .worker 0]).map (fun s => s.threads 0) =
        some (some ⟨0, some (.connection 0), .read⟩) := by decide
  obtain ⟨s, hs, ht⟩ := System.Reachable.observe rfl hrun
  exact ⟨s, hs, ht, (workers_exclusive 3 {0, 1, 2} s hs).2.2.2 0 _ ht rfl⟩

end UnixProgramming.ThreadServer
