import UnixProgramming.EpollReactor.Loop

/-! Whether every open connection is in the table. -/

namespace UnixProgramming.EpollReactor

open Library Library.Transition

variable {r r' : Reactor} {p p' : Process} {i : Slot} {lfd : ℤ} {ret : Returned}
  {inherited : Finset ℤ} {fds : Descriptors}

structure Unorphaned (r : Reactor) : Prop where
  held : ∀ fd n, r.fds.file fd = some (.connection n) →
    ∃! i, i ≠ listener ∧ (r.Events i).status = 1 ∧ (r.Events i).fd = fd
  opened : ∀ i, i ≠ listener → (r.Events i).status = 1 →
    ∃ n, r.fds.file (r.Events i).fd = some (.connection n)

def Vacant (r : Reactor) : Prop :=
  ∃ i, i ≠ listener ∧ (r.Events i).status = 0

def AcceptsVacant (p : Process) (l : Label) : Prop :=
  ∀ fd, l = .test (some (.accept fd)) → 0 ≤ fd → Vacant p.reactor

lemma freeSlot_vacant (h : Vacant r) : freeSlot r.Events ≠ none := by
  obtain ⟨i, hi, hs⟩ := h
  exact fun hn => freeSlot_none hn hi hs

lemma Consistent.unorphaned (h : Consistent lfd r) (hheld : ∀ fd n,
    r.fds.file fd = some (.connection n) →
    ∃ i, i ≠ listener ∧ (r.Events i).status = 1 ∧ (r.Events i).fd = fd) : Unorphaned r := by
  refine ⟨fun fd n hf => ?_, h.connected⟩
  obtain ⟨i, hi, hs, hfd⟩ := hheld fd n hf
  refine ⟨i, ⟨hi, hs, hfd⟩, ?_⟩
  rintro j ⟨-, hsj, hfdj⟩
  exact h.registers.unique hsj hs (hfdj.trans hfd.symm)

lemma Effect.unorphaned (h : Consistent lfd r) (hs : (r.Events i).status = 1)
    (hu : Unorphaned r) (hv : ∀ fd, ret = .accept fd → 0 ≤ fd → Vacant r)
    (he : Effect r i ret r') : Unorphaned r' := by
  apply (he.consistent h hs).unorphaned
  intro fd n hf
  cases he with
  | rearm =>
    obtain ⟨j, ⟨hj, hsj, hfd⟩, -⟩ := hu.held fd n hf
    refine ⟨j, hj, ?_⟩
    by_cases hji : j = i
    · simpa [EpollReactor.rearm, hji] using ⟨hji ▸ hsj, hji ▸ hfd⟩
    · simpa [EpollReactor.rearm, hji] using ⟨hsj, hfd⟩
  | drop =>
    have hne : fd ≠ (r.Events i).fd := by
      rintro rfl
      simp [EpollReactor.drop, close] at hf
    have hf' : r.fds.file fd = some (.connection n) :=
      (Descriptors.close_file_ne hne).symm.trans hf
    obtain ⟨j, ⟨hj, hsj, hfd⟩, -⟩ := hu.held fd n hf'
    have hji : j ≠ i := by
      rintro rfl
      exact hne hfd.symm
    exact ⟨j, hj, by simpa [EpollReactor.drop, close, hji] using ⟨hsj, hfd⟩⟩
  | @enroll _ k a fds ha hk =>
    by_cases hfd : fd = a
    · exact ⟨k, (freeSlot_some hk).1, by simp [EpollReactor.enroll, hfd]⟩
    · have hf' : r.fds.file fd = some (.connection n) :=
        (Descriptors.accept_file_ne ha hfd).symm.trans hf
      obtain ⟨j, ⟨hj, hsj, hfdj⟩, -⟩ := hu.held fd n hf'
      have hjk : j ≠ k := by
        rintro rfl
        rw [(freeSlot_some hk).2] at hsj
        cases hsj
      exact ⟨j, hj, by simpa [EpollReactor.enroll, hjk] using ⟨hsj, hfdj⟩⟩
  | leak ha hk =>
    exact absurd hk (freeSlot_vacant (hv _ rfl (Descriptors.accept_nonneg ha)))

lemma leak_orphans {fd : ℤ} {log : List Action} (h : Consistent lfd r)
    (ha : r.fds.accept fd = some fds) : ¬ Unorphaned { r with fds := fds, log := log } := by
  intro hu
  obtain ⟨j, ⟨-, hs, hfd⟩, -⟩ := hu.held fd _ (Descriptors.accept_file_self ha)
  exact h.unregistered ha hs hfd

lemma full_freeSlot (h : ¬ Vacant r) : freeSlot r.Events = none := by
  cases hj : freeSlot r.Events with
  | none => rfl
  | some j => exact absurd ⟨j, freeSlot_some hj⟩ h

lemma step_exit {l : Label} (he : step p l = some p') : p.exit = none := by
  by_contra hx
  simp [step, Option.isSome_iff_ne_none.mpr hx] at he

lemma step_reactor {l : Label} (hl : ∀ ret, l ≠ .test (some ret)) (he : step p l = some p') :
    p'.reactor = p.reactor := by
  simp only [step, step_exit he, Option.isSome_none, Bool.false_eq_true, if_false] at he
  cases l with
  | wait ready =>
    simp only [waitStep, Option.ite_none_right_eq_some, Option.some.injEq] at he
    obtain ⟨-, rfl⟩ := he
    rfl
  | waitFails =>
    obtain ⟨-, rfl⟩ : _ ∧ { p with exit := some "epoll_wait()" } = p' := by simpa using he
    rfl
  | test ret =>
    cases ret with
    | none =>
      have hnone : ∀ bit next, testStep p bit next none = some p' → p'.reactor = p.reactor := by
        intro bit next ht
        obtain ⟨e, rest, -, ht⟩ := testStep_cases ht
        cases ht <;> rfl
      cases hph : p.phase with
      | readable | writable =>
        simp only [hph] at he
        exact hnone _ _ he
      | wait | advance => simp [hph] at he
    | some ret => exact absurd rfl (hl ret)
  | advance =>
    simp only [advanceStep, Option.ite_none_right_eq_some, Option.some.injEq] at he
    obtain ⟨-, rfl⟩ := he
    rfl

/-- A test is one of the two, and an entry that reports its bit has not been called yet and
still describes its slot. -/
lemma test_cases {ret : Option Returned} (h : Sound lfd p) (he : step p (.test ret) = some p') :
    ∃ e bit next, p.queue.head? = some e ∧
      (p.phase = .readable ∧ bit = EPOLLIN ∧ next = .writable ∨
        p.phase = .writable ∧ bit = EPOLLOUT ∧ next = .advance) ∧
      (has e.events bit = true → p.calls = [] ∧ Pending p.reactor e) ∧
      testStep p bit next ret = some p' ∧ Tested p e bit next ret p' := by
  have hx := step_exit he
  simp only [step, hx, Option.isSome_none, Bool.false_eq_true, if_false] at he
  cases hph : p.phase with
  | readable =>
    simp only [hph] at he
    obtain ⟨e, rest, hq, ht⟩ := testStep_cases he
    have ha : Ahead p e := h.ahead hx e (by rw [hq]; rfl)
    simp only [Ahead, hph] at ha
    exact ⟨e, _, _, by rw [hq]; rfl, .inl ⟨rfl, rfl, rfl⟩, fun _ => ha, he, ht⟩
  | writable =>
    simp only [hph] at he
    obtain ⟨e, rest, hq, ht⟩ := testStep_cases he
    have ha : Ahead p e := h.ahead hx e (by rw [hq]; rfl)
    simp only [Ahead, hph] at ha
    refine ⟨e, _, _, by rw [hq]; rfl, .inr ⟨rfl, rfl, rfl⟩, fun hout => ?_, he, ht⟩
    rcases ha with ha | ha
    · exact ha
    · rw [ha] at hout
      cases hout
  | wait | advance => simp [hph] at he

lemma test_called (h : Sound lfd p) (he : step p (.test (some ret)) = some p') :
    ∃ e handler, p.queue.head? = some e ∧ (p.reactor.Events e.ptr).status = 1 ∧
      (p.reactor.Events e.ptr).call_back = some handler ∧
      (callBack p.reactor e.ptr handler ret = some (.ok p'.reactor) ∧ p'.exit = none ∨
        ∃ message, callBack p.reactor e.ptr handler ret = some (.error message) ∧
          p'.reactor = p.reactor ∧ p'.exit = some message) := by
  have hx := step_exit he
  obtain ⟨e, bit, next, hhead, -, hp, -, ht⟩ := test_cases h he
  cases ht with
  | returns _ hb hcb hres =>
    exact ⟨e, _, hhead, (hp hb).2.status, hcb, Or.inl ⟨hres, hx⟩⟩
  | exits _ hb hcb hres =>
    exact ⟨e, _, hhead, (hp hb).2.status, hcb, Or.inr ⟨_, hres, rfl, rfl⟩⟩

lemma step_unorphaned {l : Label} (h : Sound lfd p) (hu : Unorphaned p.reactor)
    (hg : AcceptsVacant p l) (he : step p l = some p') : Unorphaned p'.reactor := by
  by_cases hl : ∃ ret, l = .test (some ret)
  · obtain ⟨ret, rfl⟩ := hl
    obtain ⟨e, handler, -, hs, hcb, ⟨hres, -⟩ | ⟨_, -, hr, -⟩⟩ := test_called h he
    · have heff : Effect p.reactor e.ptr ret p'.reactor := callBack_effect h.consistent hs hcb hres
      exact heff.unorphaned h.consistent hs hu fun fd hret => hg fd (hret ▸ rfl)
    · rwa [hr]
  · rwa [step_reactor (fun ret hr => hl ⟨ret, hr⟩) he]

lemma step_leaks {l : Label} (h : Sound lfd p) (hg : ¬ AcceptsVacant p l)
    (he : step p l = some p') : p'.exit = none ∧ ∃ fd fds log, l = .test (some (.accept fd)) ∧
      p.reactor.fds.accept fd = some fds ∧
      p'.reactor = { p.reactor with fds := fds, log := log } := by
  simp only [AcceptsVacant, not_forall] at hg
  obtain ⟨fd, rfl, hfd, hv⟩ := hg
  obtain ⟨e, handler, -, -, -, hres⟩ := test_called h he
  cases handler with
  | acceptconnection =>
    rcases hres with ⟨hres, hx⟩ | ⟨message, hres, -, -⟩ <;>
      obtain ⟨fds, ha, hinst⟩ := acceptconnection_accepts hfd hres <;>
      rw [install_full (by exact full_freeSlot hv)] at hinst
    · exact ⟨hx, fd, fds, _, rfl, ha, Except.ok.inj hinst⟩
    · cases hinst
  | recvData | sendData => rcases hres with ⟨hres, -⟩ | ⟨message, hres, -, -⟩ <;> cases hres

lemma step_orphans {l : Label} (h : Sound lfd p) (hg : ¬ AcceptsVacant p l)
    (he : step p l = some p') : ¬ Unorphaned p'.reactor := by
  obtain ⟨-, fd, fds, log, -, ha, hr⟩ := step_leaks h hg he
  rw [hr]
  exact leak_orphans h.consistent ha

lemma start_unorphaned (lfd : ℤ) (inherited : Finset ℤ) :
    Unorphaned (start lfd inherited).reactor := by
  apply (boot_consistent lfd inherited).unorphaned
  intro fd n hf
  exact absurd hf Descriptors.boot_connection

theorem unorphaned_iff (lfd : ℤ) (inherited : Finset ℤ) (ls : List Label) (p : Process)
    (hr : (system lfd inherited).Run (start lfd inherited) ls p) :
    (system lfd inherited).Along (fun q => Unorphaned q.reactor) (start lfd inherited) ls ↔
      (system lfd inherited).Guarded AcceptsVacant (start lfd inherited) ls := by
  have h₀ : Sound lfd (start lfd inherited) ∧ Unorphaned (start lfd inherited).reactor :=
    ⟨start_sound lfd inherited, start_unorphaned lfd inherited⟩
  apply System.along_iff_guarded (K := fun q => Sound lfd q ∧ Unorphaned q.reactor)
    (fun _ h => h.2) _ _ h₀ hr
  · rintro q l q' ⟨h, hu⟩ hg he
    exact ⟨(sound_inductive lfd inherited).step q l q' h he, step_unorphaned h hu hg he⟩
  · rintro q l q' ⟨h, -⟩ hg he
    exact step_orphans h hg he

theorem unorphaned_iff_accepted : ∃ p,
    (system 3 {0, 1, 2, 4}).Run (start 3 {0, 1, 2, 4})
      (round 3 EPOLLIN (some (.accept 5)) none) p ∧
    ((system 3 {0, 1, 2, 4}).Along (fun q => Unorphaned q.reactor) (start 3 {0, 1, 2, 4})
        (round 3 EPOLLIN (some (.accept 5)) none) ↔
      (system 3 {0, 1, 2, 4}).Guarded AcceptsVacant (start 3 {0, 1, 2, 4})
        (round 3 EPOLLIN (some (.accept 5)) none)) := by
  have hrun : ((system 3 {0, 1, 2, 4}).exec (start 3 {0, 1, 2, 4})
      (round 3 EPOLLIN (some (.accept 5)) none)).isSome = true := rfl
  obtain ⟨p, hr⟩ := System.exists_run hrun
  exact ⟨p, hr, unorphaned_iff 3 {0, 1, 2, 4} _ p hr⟩

section FullTable

variable (inherited)

structure Ready (lfd : ℤ) (p : Process) : Prop where
  sound : Sound lfd p
  phase : p.phase = .wait
  running : p.exit = none
  unopened : ∃ m : ℤ, 0 ≤ m ∧ ∀ fd, m ≤ fd → p.reactor.fds.file fd = none

def freeSlots (r : Reactor) : Finset Slot :=
  Finset.univ.filter fun i => i ≠ listener ∧ (r.Events i).status = 0

lemma mem_freeSlots : i ∈ freeSlots r ↔ i ≠ listener ∧ (r.Events i).status = 0 := by
  simp [freeSlots]

lemma acceptconnection_eq (h : Consistent lfd r) {fd : ℤ} (ha : r.fds.accept fd = some fds) :
    acceptconnection r listener fd =
      some (install { r.record (.accept fd) with fds := fds } fd) := by
  have h₀ : ¬ fd < 0 := not_lt.mpr (Descriptors.accept_nonneg ha)
  simp [acceptconnection, accept, h₀, h.listening, h.listens, ha]

lemma accept_round (h : Ready lfd p) {fd : ℤ} (ha : p.reactor.fds.accept fd = some fds)
    (hi : install { p.reactor.record (.accept fd) with fds := fds } fd = .ok r')
    (hl : r'.Events listener = p.reactor.Events listener) :
    (system lfd inherited).exec p (round lfd EPOLLIN (some (.accept fd)) none) =
      some ⟨r', .wait, [], [], none⟩ := by
  have hc : Consistent lfd p.reactor := h.sound.consistent
  have hlist := hc.listening
  have hint : p.reactor.interest lfd = some (listener, EPOLLIN) := by
    apply (hc.registers _ _ _).mpr
    rw [hlist]
    exact ⟨rfl, rfl, rfl⟩
  have hin : has EPOLLIN EPOLLIN = true := by decide
  have hout : has EPOLLIN EPOLLOUT = false := by decide
  have hmask : EPOLLIN &&& ~~~(EPOLLIN ||| EPOLLERR ||| EPOLLHUP) = 0 := by decide
  have hcall : callBack p.reactor listener .acceptconnection (.accept fd) = some (.ok r') :=
    (acceptconnection_eq hc ha).trans (congrArg some hi)
  let q₁ : Process := ⟨p.reactor, .readable, [⟨listener, EPOLLIN, some .listener⟩], [], none⟩
  let call : Call := ⟨.acceptconnection, listener, some .listener⟩
  let q₂ : Process := ⟨r', .writable, q₁.queue, [call], none⟩
  let q₃ : Process := ⟨r', .advance, q₁.queue, [call], none⟩
  have h₁ : step p (.wait [(lfd, EPOLLIN)]) = some q₁ := by
    simp [step, h.running, waitStep, h.phase, reportable, report, hint, hmask, hc.listens, q₁]
  have h₂ : step q₁ (.test (some (.accept fd))) = some q₂ := by
    simp [step, testStep, testEvent, hlist, hin, hcall, hc.listens, q₁, q₂, call]
  have h₃ : step q₂ (.test none) = some q₃ := by
    simp [step, testStep, testEvent, hl, hlist, hout, q₁, q₂, q₃]
  have h₄ : step q₃ .advance = some ⟨r', .wait, [], [], none⟩ := by
    simp [step, advanceStep, q₁, q₃]
  simp [round, System.exec, system, h₁, h₂, h₃, h₄]

lemma accept_ready (h : Ready lfd p) {fd : ℤ} (ha : p.reactor.fds.accept fd = some fds)
    (hr : r'.fds = fds) (he : (system lfd inherited).exec p
      (round lfd EPOLLIN (some (.accept fd)) none) = some ⟨r', .wait, [], [], none⟩) :
    Ready lfd ⟨r', .wait, [], [], none⟩ := by
  obtain ⟨m, hm, hfile⟩ := h.unopened
  refine ⟨(sound_inductive lfd inherited).run h.sound (System.run_iff_exec.mpr he), rfl, rfl,
    max m (fd + 1), hm.trans (le_max_left _ _), fun a ha' => ?_⟩
  dsimp only
  rw [hr, Descriptors.accept_file_ne ha (by omega)]
  exact hfile a (by omega)

lemma exists_unopened (h : Ready lfd p) : ∃ fd fds, p.reactor.fds.accept fd = some fds := by
  obtain ⟨m, hm, hfile⟩ := h.unopened
  exact ⟨m, Descriptors.exists_accept hm (hfile m le_rfl)⟩

lemma connect_one (h : Ready lfd p) (hv : Vacant p.reactor) :
    ∃ p', (system lfd inherited).Reaches p p' ∧ Ready lfd p' ∧
      (freeSlots p'.reactor).card < (freeSlots p.reactor).card := by
  obtain ⟨fd, fds, ha⟩ := exists_unopened h
  obtain ⟨j, hj⟩ := Option.ne_none_iff_exists'.mp (freeSlot_vacant hv)
  have hjl := freeSlot_some hj
  let r : Reactor := { p.reactor.record (.accept fd) with fds := fds }
  have hi : install r fd = .ok (enroll r j fd) :=
    install_free hj (h.sound.consistent.not_interested ha)
  have he := accept_round inherited h ha hi (by simp [enroll, r, hjl.1.symm])
  refine ⟨_, .exec he, accept_ready inherited h ha rfl he, ?_⟩
  have herase : freeSlots (enroll r j fd) = (freeSlots p.reactor).erase j := by
    ext i
    rw [Finset.mem_erase, mem_freeSlots, mem_freeSlots]
    by_cases hij : i = j <;> simp [enroll, r, hij]
  dsimp only
  rw [herase]
  exact Finset.card_erase_lt_of_mem (mem_freeSlots.mpr hjl)

lemma connect_all (n : ℕ) (h : Ready lfd p) (hn : (freeSlots p.reactor).card ≤ n) :
    ∃ p', (system lfd inherited).Reaches p p' ∧ Ready lfd p' ∧ ¬ Vacant p'.reactor := by
  induction n generalizing p with
  | zero =>
    refine ⟨p, .refl, h, ?_⟩
    rintro ⟨i, hi⟩
    have hpos : 0 < (freeSlots p.reactor).card := Finset.card_pos.mpr ⟨i, mem_freeSlots.mpr hi⟩
    omega
  | succ n ih =>
    by_cases hv : Vacant p.reactor
    · obtain ⟨q, hpq, hq, hlt⟩ := connect_one inherited h hv
      obtain ⟨p', hqp, hp'⟩ := ih hq (by omega)
      exact ⟨p', hpq.trans hqp, hp'⟩
    · exact ⟨p, .refl, h, hv⟩

lemma start_ready : Ready 3 (start 3 {0, 1, 2, 4}) where
  sound := start_sound 3 {0, 1, 2, 4}
  phase := rfl
  running := rfl
  unopened := by
    refine ⟨5, by decide, fun fd hfd => ?_⟩
    have h₃ : fd ≠ 3 := by omega
    simp only [start, boot, Descriptors.boot, if_neg h₃, Finset.mem_insert,
      Finset.mem_singleton]
    exact if_neg (by omega)

theorem full_table_orphans : ∃ p, (system 3 {0, 1, 2, 4}).Reachable p ∧ p.exit = none ∧
    ¬ Unorphaned p.reactor := by
  obtain ⟨p, hp, hr, hv⟩ := connect_all {0, 1, 2, 4} _ start_ready le_rfl
  obtain ⟨fd, fds, ha⟩ := exists_unopened hr
  have he := accept_round {0, 1, 2, 4} hr ha
    (install_full (by exact full_freeSlot hv)) rfl
  refine ⟨_, .reaches (.initial rfl) (hp.trans (.exec he)), rfl, ?_⟩
  exact leak_orphans (r := p.reactor) hr.sound.consistent ha

end FullTable

end UnixProgramming.EpollReactor
