import UnixProgramming.ThreadServer.Connections

/-! Whether each accepted connection is passed to a worker: what the two `accept`
calls of the retry loop leave in the slot. -/

namespace UnixProgramming.ThreadServer

open Library Library.Transition

variable {s s' : State} {n : ℕ}

def PassedOnce (s : State) (n : ℕ) : Prop :=
  ∃! t, ∃ w, s.threads t = some w ∧ w.conn = some (.connection n)

/-- `main` is about to pass the connection's slot to `pthread_create`, or has
passed it to exactly one worker. -/
def Served (s : State) : Prop :=
  ∀ n < s.fds.accepted,
    (∃ i, s.main = .create i ∧ s.fds.file (s.socks i).cfd = some (.connection n)) ∨ PassedOnce s n

/-- The `accept` in the body of the retry loop returns no descriptor. -/
def BodyAcceptFails (s : State) (l : Label) : Prop :=
  ∀ i ret addr, s.main = .retry i → l = .accept ret addr → ret = -1

/-- Neither held by `main` for the next worker nor passed to one before. -/
def Dropped (s : State) (n : ℕ) : Prop :=
  n < s.fds.accepted ∧
    (∀ i, s.main = .create i → s.fds.file (s.socks i).cfd ≠ some (.connection n)) ∧
    ∀ t w, s.threads t = some w → w.conn ≠ some (.connection n)

lemma PassedOnce.congr (h : PassedOnce s n)
    (ht : ∀ t, (s'.threads t).map Worker.conn = (s.threads t).map Worker.conn) :
    PassedOnce s' n := by
  have hiff : ∀ r : State, ∀ t, (∃ w, r.threads t = some w ∧ w.conn = some (.connection n)) ↔
      (r.threads t).map Worker.conn = some (some (.connection n)) := by
    intro r t
    rw [Option.map_eq_some_iff]
  obtain ⟨t, hw, hu⟩ := h
  refine ⟨t, ?_, fun u hv => hu u ?_⟩
  · apply (hiff s' t).mpr
    rw [ht]
    exact (hiff s t).mp hw
  · apply (hiff s u).mpr
    rw [← ht]
    exact (hiff s' u).mp hv

lemma Served.congr (h : Served s) (ha : s'.fds.accepted = s.fds.accepted)
    (hm : ∀ i, s.main ≠ .create i)
    (ht : ∀ t, (s'.threads t).map Worker.conn = (s.threads t).map Worker.conn) : Served s' := by
  intro n hn
  rw [ha] at hn
  rcases h n hn with ⟨i, hi, -⟩ | hp
  · exact absurd hi (hm i)
  · exact Or.inr (hp.congr ht)

lemma setWorker_conn {t : ℕ} {w : Worker} {pc : WorkerPc} (ht : s.threads t = some w) (u : ℕ) :
    ((s.setWorker t { w with pc := pc }).threads u).map Worker.conn =
      (s.threads u).map Worker.conn := by
  by_cases hu : u = t
  · simp [hu, ht]
  · simp [hu]

lemma Served.others (h : Served s) (ha : s'.fds.accepted = s.fds.accepted)
    (hm : ∀ i n, s.main = .create i → s.fds.file (s.socks i).cfd = some (.connection n) →
      s'.main = .create i ∧ s'.fds.file (s'.socks i).cfd = some (.connection n))
    (ht : ∀ t, (s'.threads t).map Worker.conn = (s.threads t).map Worker.conn) : Served s' := by
  intro n hn
  rw [ha] at hn
  rcases h n hn with ⟨i, hi, hf⟩ | hp
  · exact Or.inl ⟨i, hm i n hi hf⟩
  · exact Or.inr (hp.congr ht)

lemma workerStep_served {t : ℕ} {w : Worker} (ho : Owned s) (h : Served s)
    (ht : s.threads t = some w) (he : workerStep s t w = some s') : Served s' := by
  cases workerStep_cases he with
  | starts => exact h.others rfl (fun i n hi hf => ⟨hi, hf⟩) (setWorker_conn ht)
  | frees =>
    refine h.others rfl (fun i n hi hf => ⟨hi, ?_⟩) (setWorker_conn ht)
    rw [← hf]
    apply congrArg s.fds.file
    by_cases hj : i = w.slot <;> simp [State.setOn, hj]
  | closes hpc =>
    refine h.others rfl (fun i n hi hf => ⟨hi, ?_⟩) (setWorker_conn ht)
    refine (Descriptors.close_file_ne ?_).trans hf
    intro hfd
    obtain ⟨k, hk, hnone⟩ := ho.created i hi
    apply hnone t w ht
    rw [← ho.holding t w ht (by rw [hpc]; rfl), ← hk]
    exact congrArg s.fds.file hfd.symm
  | raises => exact h.others rfl (fun i n hi hf => ⟨hi, hf⟩) (setWorker_conn ht)
  | returns => exact h.others rfl (fun i n hi hf => ⟨hi, hf⟩) (setWorker_conn ht)

lemma createStep_served (hx : Exclusive s) (ho : Owned s) (h : Served s)
    (he : createStep s = some s') : Served s' := by
  obtain ⟨i, hm, rfl⟩ := createStep_cases he
  have hspawn : s.threads s.spawned = none := hx.spawned _ le_rfl
  intro n hn
  refine Or.inr ?_
  by_cases hfile : s.fds.file (s.socks i).cfd = some (.connection n)
  · -- the new worker is the only one with this connection
    obtain ⟨k, hk, hnone⟩ := ho.created i hm
    obtain rfl : k = n := by
      rw [hk] at hfile
      cases hfile
      rfl
    refine ⟨s.spawned, ⟨_, update_worker.mpr (Or.inl ⟨rfl, rfl⟩), hk⟩, fun u hu => ?_⟩
    obtain ⟨w, hw, hc⟩ := hu
    rcases update_worker.mp hw with ⟨hus, -⟩ | ⟨-, hw⟩
    · exact hus
    · exact absurd hc (hnone u w hw)
  · rcases h n hn with ⟨j, hj, hf⟩ | ⟨t, ⟨w, hw, hc⟩, hu⟩
    · rw [hm] at hj
      cases hj
      exact absurd hf hfile
    · have hts : t ≠ s.spawned := by
        rintro rfl
        rw [hspawn] at hw
        cases hw
      refine ⟨t, ⟨w, update_worker.mpr (Or.inr ⟨hts, hw⟩), hc⟩, fun u hv => ?_⟩
      obtain ⟨v, hv, hcv⟩ := hv
      rcases update_worker.mp hv with ⟨-, rfl⟩ | ⟨-, hv⟩
      · exact absurd hcv hfile
      · exact hu u ⟨v, hv, hcv⟩

lemma acceptStep_served {ret : ℤ} {addr : ℕ} (h : Served s)
    (hc : ∀ i, s.main = .retry i → ret = -1) (he : acceptStep s ret addr = some s') :
    Served s' := by
  obtain ⟨i, r, hr, hs⟩ := acceptStep_cases he
  obtain ⟨ht, -, -, -, -⟩ := acceptInto_frame hr
  have hne : ∀ j, s.main ≠ .create j := by
    intro j hj
    rcases hs with ⟨hm, -⟩ | ⟨hm, -⟩ <;> · rw [hm] at hj; cases hj
  rcases acceptInto_fds hr with ⟨rfl, hf⟩ | ⟨hret, hf, hcfd⟩
  · apply h.congr _ hne
    · intro t
      rcases hs with ⟨-, rfl⟩ | ⟨-, rfl⟩ <;> exact congrArg _ (congrFun ht t)
    · rcases hs with ⟨-, rfl⟩ | ⟨-, rfl⟩ <;> exact congrArg _ hf
  · rcases hs with ⟨-, rfl⟩ | ⟨hm, -⟩
    · rw [if_neg hret]
      intro n hn
      have hlt : n < s.fds.accepted + 1 := (Descriptors.accept_accepted hf) ▸ hn
      rcases Nat.lt_succ_iff_lt_or_eq.mp hlt with hold | rfl
      · rcases h n hold with ⟨j, hj, -⟩ | hp
        · exact absurd hj (hne j)
        · exact Or.inr (hp.congr fun t => congrArg _ (congrFun ht t))
      · refine Or.inl ⟨i, rfl, ?_⟩
        dsimp only
        rw [hcfd]
        exact Descriptors.accept_file_self hf
    · exact absurd (hc i hm) hret

lemma mainStep_served (h : Served s) (he : mainStep s = some s') : Served s' := by
  obtain ⟨ht, hf, -, -⟩ := mainStep_frame he
  have hne : ∀ i, s.main ≠ .create i := by
    intro i hi
    simp [mainStep, hi] at he
  exact h.congr (congrArg _ hf) hne fun t => congrArg _ (congrFun ht t)

lemma deliverStep_served {t : Thread} (h : Served s) (he : deliverStep s t = some s') :
    Served s' := by
  obtain ⟨target, -, -, -, rfl⟩ := deliverStep_cases he
  refine h.others rfl (fun i n hi hf => ⟨?_, hf⟩) fun _ => rfl
  simp [hi]

lemma step_served {l : Label} (hx : Exclusive s) (ho : Owned s) (h : Served s)
    (hc : BodyAcceptFails s l) (he : step s l = some s') : Served s' := by
  obtain ⟨-, hm⟩ := step_cases he
  cases hm with
  | main hm => exact mainStep_served h hm
  | accept hm => exact acceptStep_served h (fun i hi => hc i _ _ hi rfl) hm
  | create hm => exact createStep_served hx ho h hm
  | dies => exact h.others rfl (fun i n hi hf => ⟨hi, hf⟩) fun _ => rfl
  | worker ht hw => exact workerStep_served ho h ht hw
  | read ht => exact h.others rfl (fun i n hi hf => ⟨hi, hf⟩) (setWorker_conn ht)
  | write ht => exact h.others rfl (fun i n hi hf => ⟨hi, hf⟩) (setWorker_conn ht)
  | kill => exact h.others rfl (fun i n hi hf => ⟨hi, hf⟩) fun _ => rfl
  | deliver hd => exact deliverStep_served h hd

lemma Dropped.others (h : Dropped s n) (ha : s'.fds.accepted = s.fds.accepted)
    (hm : ∀ i, s'.main = .create i → s.main = .create i ∧
      (s'.fds.file (s'.socks i).cfd = s.fds.file (s.socks i).cfd ∨
        s'.fds.file (s'.socks i).cfd = none))
    (ht : ∀ t, (s'.threads t).map Worker.conn = (s.threads t).map Worker.conn) :
    Dropped s' n := by
  obtain ⟨hlt, hcreate, hnone⟩ := h
  refine ⟨ha ▸ hlt, fun i hi => ?_, fun t w hw hc => ?_⟩
  · obtain ⟨hi', hf | hf⟩ := hm i hi
    · rw [hf]
      exact hcreate i hi'
    · simp [hf]
  · have hmap := ht t
    rw [hw, Option.map_some, hc] at hmap
    obtain ⟨v, hv, hvc⟩ := Option.map_eq_some_iff.mp hmap.symm
    exact hnone t v hv hvc

lemma acceptStep_dropped {ret : ℤ} {addr : ℕ} (h : Dropped s n)
    (he : acceptStep s ret addr = some s') : Dropped s' n := by
  obtain ⟨i, r, hr, hs⟩ := acceptStep_cases he
  obtain ⟨ht, -, -, -, -⟩ := acceptInto_frame hr
  obtain ⟨hlt, -, hnone⟩ := h
  have hlt' : n < r.fds.accepted := by
    rcases acceptInto_fds hr with ⟨-, hf⟩ | ⟨-, hf, -⟩
    · rwa [hf]
    · rw [Descriptors.accept_accepted hf]
      exact hlt.trans (Nat.lt_succ_self _)
  have hnone' : ∀ t w, r.threads t = some w → w.conn ≠ some (.connection n) := by
    rwa [ht]
  rcases hs with ⟨-, rfl⟩ | ⟨-, rfl⟩
  · refine ⟨hlt', fun j hj => ?_, hnone'⟩
    rcases acceptInto_fds hr with ⟨rfl, -⟩ | ⟨hret, hf, hcfd⟩
    · cases hj
    · obtain rfl : i = j := by
        rw [if_neg hret] at hj
        cases hj
        rfl
      dsimp only
      rw [hcfd, Descriptors.accept_file_self hf]
      intro hn
      cases hn
      exact absurd hlt (lt_irrefl _)
  · exact ⟨hlt', fun j hj => (by cases hj), hnone'⟩

lemma createStep_dropped (h : Dropped s n) (he : createStep s = some s') : Dropped s' n := by
  obtain ⟨i, hm, rfl⟩ := createStep_cases he
  obtain ⟨hlt, hcreate, hnone⟩ := h
  refine ⟨hlt, fun j hj => (by cases hj), fun t w ht => ?_⟩
  rcases update_worker.mp ht with ⟨-, rfl⟩ | ⟨-, ht⟩
  · exact hcreate i hm
  · exact hnone t w ht

lemma workerStep_dropped {t : ℕ} {w : Worker} (h : Dropped s n) (ht : s.threads t = some w)
    (he : workerStep s t w = some s') : Dropped s' n := by
  cases workerStep_cases he with
  | starts => exact h.others rfl (fun i hi => ⟨hi, Or.inl rfl⟩) (setWorker_conn ht)
  | frees =>
    refine h.others rfl (fun i hi => ⟨hi, Or.inl ?_⟩) (setWorker_conn ht)
    apply congrArg s.fds.file
    by_cases hj : i = w.slot <;> simp [State.setOn, hj]
  | closes =>
    refine h.others rfl (fun i hi => ⟨hi, ?_⟩) (setWorker_conn ht)
    by_cases hfd : (s.socks i).cfd = (s.socks w.slot).cfd
    · refine Or.inr ?_
      exact (congrArg (s.fds.close (s.socks w.slot).cfd).file hfd).trans Descriptors.close_file_self
    · exact Or.inl (Descriptors.close_file_ne hfd)
  | raises => exact h.others rfl (fun i hi => ⟨hi, Or.inl rfl⟩) (setWorker_conn ht)
  | returns => exact h.others rfl (fun i hi => ⟨hi, Or.inl rfl⟩) (setWorker_conn ht)

lemma step_dropped {l : Label} (h : Dropped s n) (he : step s l = some s') : Dropped s' n := by
  obtain ⟨-, hm⟩ := step_cases he
  cases hm with
  | main hm =>
    obtain ⟨ht, hf, -, hne⟩ := mainStep_frame hm
    exact h.others (congrArg _ hf) (fun i hi => absurd hi (hne i))
      fun t => congrArg _ (congrFun ht t)
  | accept hm => exact acceptStep_dropped h hm
  | create hm => exact createStep_dropped h hm
  | dies => exact h.others rfl (fun i hi => ⟨hi, Or.inl rfl⟩) fun _ => rfl
  | worker ht hw => exact workerStep_dropped h ht hw
  | read ht => exact h.others rfl (fun i hi => ⟨hi, Or.inl rfl⟩) (setWorker_conn ht)
  | write ht => exact h.others rfl (fun i hi => ⟨hi, Or.inl rfl⟩) (setWorker_conn ht)
  | kill => exact h.others rfl (fun i hi => ⟨hi, Or.inl rfl⟩) fun _ => rfl
  | deliver hd =>
    obtain ⟨target, -, -, -, rfl⟩ := deliverStep_cases hd
    refine h.others rfl (fun i hi => ⟨?_, Or.inl rfl⟩) fun _ => rfl
    dsimp only at hi
    split_ifs at hi
    exact hi

lemma dropped_for_good {lfd : ℤ} {inherited : Finset ℤ} (h : Dropped s n)
    (hr : (system lfd inherited).Reaches s s') : ¬ PassedOnce s' n := by
  obtain ⟨ls, hr⟩ := hr
  have h' : Dropped s' n := by
    induction hr with
    | nil => exact h
    | cons he _ ih => exact ih (step_dropped h he)
  rintro ⟨t, ⟨w, hw, hc⟩, -⟩
  exact h'.2.2 t w hw hc

lemma body_accept_drops {l : Label} (ho : Owned s) (hc : ¬ BodyAcceptFails s l)
    (he : step s l = some s') : Dropped s' s.fds.accepted := by
  simp only [BodyAcceptFails, not_forall] at hc
  obtain ⟨i, ret, addr, hm, rfl, hret⟩ := hc
  obtain ⟨-, hmove⟩ := step_cases he
  cases hmove with
  | dies hl => cases hl
  | accept ha =>
    obtain ⟨j, r, hr, hs⟩ := acceptStep_cases ha
    obtain ⟨ht, -, -, -, -⟩ := acceptInto_frame hr
    rcases hs with ⟨hj, -⟩ | ⟨-, rfl⟩
    · rw [hm] at hj
      cases hj
    rcases acceptInto_fds hr with ⟨hn, -⟩ | ⟨-, hf, -⟩
    · exact absurd hn hret
    refine ⟨?_, fun k hk => (by cases hk), fun t w hw hc => ?_⟩
    · rw [Descriptors.accept_accepted hf]
      exact Nat.lt_succ_self _
    · obtain ⟨n, hn, hlt⟩ := ho.handed t w (ht ▸ hw)
      rw [hn] at hc
      cases hc
      exact absurd hlt (lt_irrefl _)

lemma Dropped.not_served (h : Dropped s n) : ¬ Served s := by
  intro hserved
  obtain ⟨hlt, hcreate, hnone⟩ := h
  rcases hserved n hlt with ⟨i, hi, hf⟩ | ⟨t, ⟨w, hw, hc⟩, -⟩
  · exact hcreate i hi hf
  · exact hnone t w hw hc

theorem served_iff (lfd : ℤ) (inherited : Finset ℤ) (ls : List Label) (s : State)
    (hr : (system lfd inherited).Run (start lfd inherited) ls s) :
    (system lfd inherited).Along Served (start lfd inherited) ls ↔
      (system lfd inherited).Guarded BodyAcceptFails (start lfd inherited) ls := by
  apply System.along_iff_guarded (K := fun s => (Exclusive s ∧ Owned s) ∧ Served s) _ _ _ _ hr
  · exact fun s h => h.2
  · intro s l s' h hc he
    exact ⟨(owned_inductive lfd inherited).step s l s' h.1 he, step_served h.1.1 h.1.2 h.2 hc he⟩
  · exact fun s l s' h hc he => (body_accept_drops h.1.2 hc he).not_served
  · exact ⟨(owned_inductive lfd inherited).initial _ rfl, fun n hn => absurd hn (Nat.not_lt_zero n)⟩

theorem served_iff_retried : ∃ s,
    (system 3 {0, 1, 2}).Run (start 3 {0, 1, 2})
      [.main, .accept (-1) 0, .accept (-1) 0, .accept 5 7, .create] s ∧
    ((system 3 {0, 1, 2}).Along Served (start 3 {0, 1, 2})
        [.main, .accept (-1) 0, .accept (-1) 0, .accept 5 7, .create] ↔
      (system 3 {0, 1, 2}).Guarded BodyAcceptFails (start 3 {0, 1, 2})
        [.main, .accept (-1) 0, .accept (-1) 0, .accept 5 7, .create]) := by
  have hrun : ((system 3 {0, 1, 2}).exec (start 3 {0, 1, 2})
      [.main, .accept (-1) 0, .accept (-1) 0, .accept 5 7, .create]).isSome = true := by decide
  obtain ⟨s, hr⟩ := System.exists_run hrun
  exact ⟨s, hr, served_iff 3 {0, 1, 2} _ s hr⟩

/-- The second `accept` returns descriptor 5, and the third one overwrites it:
the worker gets the other client, and no later one gets the first. -/
theorem accepted_client_dropped : ∃ s, (system 3 {0, 1, 2}).Reachable s ∧
    s.fds.file 5 = some (.connection 0) ∧ s.fds.file (s.socks 0).cfd = some (.connection 1) ∧
    s.threads 0 = some ⟨0, some (.connection 1), .start⟩ ∧ ¬ Served s ∧
    ∀ s', (system 3 {0, 1, 2}).Reaches s s' → ¬ PassedOnce s' 0 := by
  have hrun : ((system 3 {0, 1, 2}).exec (start 3 {0, 1, 2})
      [.main, .accept (-1) 0, .accept 5 7, .accept 6 8, .create]).map (fun s =>
        (s.fds.file 5, s.fds.file (s.socks 0).cfd, s.spawned, s.threads 0, s.main,
          s.fds.accepted)) =
      some (some (.connection 0), some (.connection 1), 1,
        some ⟨0, some (.connection 1), .start⟩, .assign 0, 2) := rfl
  obtain ⟨s, hs, he⟩ := System.Reachable.observe rfl hrun
  simp only [Prod.mk.injEq] at he
  obtain ⟨h₅, hcfd, hsp, ht, hm, hacc⟩ := he
  have hd : Dropped s 0 := by
    refine ⟨by omega, fun i hi => ?_, fun t w hw hc => ?_⟩
    · rw [hm] at hi
      cases hi
    · by_cases h₀ : t = 0
      · rw [h₀, ht] at hw
        cases hw
        cases hc
      · rw [((exclusive_inductive 3 {0, 1, 2}).reachable hs).spawned t (by omega)] at hw
        cases hw
  exact ⟨s, hs, h₅, hcfd, ht, hd.not_served, fun s' hr => dropped_for_good hd hr⟩

end UnixProgramming.ThreadServer
