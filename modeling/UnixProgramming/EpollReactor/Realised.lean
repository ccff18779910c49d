import UnixProgramming.EpollReactor.Dispatch
import UnixProgramming.EpollReactor.Sessions

/-! Whatever a server with `MAXEVENT` seats may do, the reactor does for some clients. -/

namespace UnixProgramming.EpollReactor

open Library Library.Transition

variable {r r' : Reactor} {p : Process} {i : Slot} {lfd : ℤ} {ret : Returned} {n : ℕ}
  {inherited : Finset ℤ} {handler : CallBack} {s s' : Multiplexer} {k : Multiplexer.Event}
  {es : List Multiplexer.Event}

def idle (r : Reactor) : Process := ⟨r, .wait, [], [], none⟩

lemma round_reaches {q₁ q₂ q₃ q₄ : Process} {fd : ℤ} {events : Mask} {a b : Option Returned}
    (h₁ : step p (.wait [(fd, events)]) = some q₁) (h₂ : step q₁ (.test a) = some q₂)
    (h₃ : step q₂ (.test b) = some q₃) (h₄ : step q₃ .advance = some q₄) :
    (journal lfd inherited).Reaches (p, es)
      (q₄, es ++ (observed q₁ (.test a)).toList ++ (observed q₂ (.test b)).toList) := by
  have hstep : ∀ q l q' fs, step q l = some q' →
      (journal lfd inherited).Reaches (q, fs) (q', fs ++ (observed q l).toList) :=
    fun _ _ _ _ he => System.journal_reaches he
  have hfirst := hstep p _ q₁ es h₁
  have hlast := hstep q₃ .advance q₄ (es ++ (observed q₁ (.test a)).toList ++
    (observed q₂ (.test b)).toList) h₄
  simp only [observed, Option.toList_none, List.append_nil] at hfirst hlast
  exact ((hfirst.trans (hstep _ _ _ _ h₂)).trans (hstep _ _ _ _ h₃)).trans hlast

lemma Consistent.interested (h : Consistent lfd r) (hs : (r.Events i).status = 1) :
    r.interest (r.Events i).fd = some (i, (r.Events i).events) :=
  (h.registers _ _ _).mpr ⟨hs, rfl, rfl⟩

lemma read_round (h : Ready lfd p) (hs : (p.reactor.Events i).status = 1)
    (hev : (p.reactor.Events i).events = EPOLLIN)
    (hcb : (p.reactor.Events i).call_back = some handler)
    (hcall : callBack p.reactor i handler ret = some (.ok r'))
    (hk : occurred p.reactor i ret = some k) :
    (journal lfd inherited).Reaches (p, es) (idle r', es ++ [k]) := by
  have hint := h.sound.consistent.interested hs
  have hin : has EPOLLIN EPOLLIN = true := by decide
  have hout : has EPOLLIN EPOLLOUT = false := by decide
  have hmask : EPOLLIN &&& ~~~(EPOLLIN ||| EPOLLERR ||| EPOLLHUP) = 0 := by decide
  let file := p.reactor.fds.file (p.reactor.Events i).fd
  let q₁ : Process := ⟨p.reactor, .readable, [⟨i, EPOLLIN, file⟩], [], none⟩
  let q₂ : Process := ⟨r', .writable, q₁.queue, [⟨handler, i, file⟩], none⟩
  let q₃ : Process := ⟨r', .advance, q₁.queue, [⟨handler, i, file⟩], none⟩
  have h₁ : step p (.wait [((p.reactor.Events i).fd, EPOLLIN)]) = some q₁ := by
    simp [step, h.running, waitStep, h.phase, reportable, report, hint, hev, hmask, q₁, file]
  have h₂ : step q₁ (.test (some ret)) = some q₂ := by
    simp [step, testStep, testEvent, hev, hin, hcb, hcall, q₁, q₂, file]
  have h₃ : step q₂ (.test none) = some q₃ := by
    simp [step, testStep, testEvent, hout, q₁, q₂, q₃]
  have h₄ : step q₃ .advance = some (idle r') := by
    simp [step, advanceStep, idle, q₁, q₃]
  have hreach : (journal lfd inherited).Reaches (p, es) (idle r', _) := round_reaches h₁ h₂ h₃ h₄
  simpa [observed, hk, q₁] using hreach

lemma write_round (h : Ready lfd p) (hs : (p.reactor.Events i).status = 1)
    (hev : (p.reactor.Events i).events = EPOLLOUT)
    (hcb : (p.reactor.Events i).call_back = some handler)
    (hcall : callBack p.reactor i handler ret = some (.ok r'))
    (hk : occurred p.reactor i ret = some k) :
    (journal lfd inherited).Reaches (p, es) (idle r', es ++ [k]) := by
  have hint := h.sound.consistent.interested hs
  have hin : has EPOLLOUT EPOLLIN = false := by decide
  have hout : has EPOLLOUT EPOLLOUT = true := by decide
  have hmask : EPOLLOUT &&& ~~~(EPOLLOUT ||| EPOLLERR ||| EPOLLHUP) = 0 := by decide
  let file := p.reactor.fds.file (p.reactor.Events i).fd
  let q₁ : Process := ⟨p.reactor, .readable, [⟨i, EPOLLOUT, file⟩], [], none⟩
  let q₂ : Process := ⟨p.reactor, .writable, q₁.queue, [], none⟩
  let q₃ : Process := ⟨r', .advance, q₁.queue, [⟨handler, i, file⟩], none⟩
  have h₁ : step p (.wait [((p.reactor.Events i).fd, EPOLLOUT)]) = some q₁ := by
    simp [step, h.running, waitStep, h.phase, reportable, report, hint, hev, hmask, q₁, file]
  have h₂ : step q₁ (.test none) = some q₂ := by
    simp [step, testStep, testEvent, hev, hin, q₁, q₂]
  have h₃ : step q₂ (.test (some ret)) = some q₃ := by
    simp [step, testStep, testEvent, hev, hout, hcb, hcall, q₁, q₂, q₃, file]
  have h₄ : step q₃ .advance = some (idle r') := by
    simp [step, advanceStep, idle, q₁, q₃]
  have hreach : (journal lfd inherited).Reaches (p, es) (idle r', _) := round_reaches h₁ h₂ h₃ h₄
  simpa [observed, hk, q₁, q₂] using hreach

lemma Served.unopened (hv : Served r k r')
    (h : ∃ m : ℤ, 0 ≤ m ∧ ∀ fd, m ≤ fd → r.fds.file fd = none) :
    ∃ m : ℤ, 0 ≤ m ∧ ∀ fd, m ≤ fd → r'.fds.file fd = none := by
  obtain ⟨m, hm, hfile⟩ := h
  have haccept : ∀ fd fds, r.fds.accept fd = some fds →
      ∃ m : ℤ, 0 ≤ m ∧ ∀ a, m ≤ a → fds.file a = none := by
    intro fd fds ha
    refine ⟨max m (fd + 1), hm.trans (le_max_left _ _), fun a hle => ?_⟩
    rw [Descriptors.accept_file_ne ha (by omega)]
    exact hfile a (by omega)
  cases hv with
  | enrolled ha | leaked ha => exact haccept _ _ ha
  | asked | answered => exact ⟨m, hm, hfile⟩
  | @left i =>
    refine ⟨m, hm, fun fd hfd => ?_⟩
    have hclose : (r.fds.close (r.Events i).fd).file fd = none := by
      by_cases heq : fd = (r.Events i).fd
      · rw [heq, Descriptors.close_file_self]
      · rw [Descriptors.close_file_ne heq]
        exact hfile fd hfd
    simpa [drop, close] using hclose

lemma idle_ready (hc : Consistent lfd r)
    (hu : ∃ m : ℤ, 0 ≤ m ∧ ∀ fd, m ≤ fd → r.fds.file fd = none) : Ready lfd (idle r) where
  sound := ⟨hc, List.nodup_nil, fun _ he => (by cases he), fun _ he => (by cases he),
    fun _ _ he => (by cases he)⟩
  phase := rfl
  running := rfl
  unopened := hu

lemma call_realised (h : Ready lfd p) (hst : Stands p.reactor s)
    (hs : (p.reactor.Events i).status = 1) (hcb : (p.reactor.Events i).call_back = some handler)
    (hcall : callBack p.reactor i handler ret = some (.ok r'))
    (hk : occurred p.reactor i ret = some k) (hact : Multiplexer.act MAXEVENT s k = some s') :
    ∃ p', (Ready lfd p' ∧ Stands p'.reactor s') ∧
      ∀ es, (journal lfd inherited).Reaches (p, es) (p', es ++ [k]) := by
  have hc : Consistent lfd p.reactor := h.sound.consistent
  have hv : Served p.reactor k r' := by
    rcases callBack_served hc hs hcb hcall with ⟨k', r'', hk', hr, hv⟩ | ⟨hk', -⟩
    · cases hk.symm.trans hk'
      cases hr
      exact hv
    · rw [hk'] at hk
      cases hk
  have heff : Effect p.reactor i ret r' := callBack_effect hc hs hcb hcall
  obtain ⟨s'', hact', hst'⟩ := hv.stands hc hst
  cases hact.symm.trans hact'
  refine ⟨idle r', ⟨idle_ready (heff.consistent hc hs) (hv.unopened h.unopened), hst'⟩,
    fun es => ?_⟩
  rcases hc.mask hs with hev | hev
  · exact read_round h hs hev hcb hcall hk
  · exact write_round h hs hev hcb hcall hk

lemma enter_realised (h : Ready lfd p) (hst : Stands p.reactor s)
    (hact : Multiplexer.act MAXEVENT s .enter = some s') :
    ∃ p', (Ready lfd p' ∧ Stands p'.reactor s') ∧
      ∀ es, (journal lfd inherited).Reaches (p, es) (p', es ++ [.enter]) := by
  have hc : Consistent lfd p.reactor := h.sound.consistent
  obtain ⟨fd, fds, ha⟩ := exists_unopened h
  have hs : (p.reactor.Events listener).status = 1 := by rw [hc.listening]
  have hcb : (p.reactor.Events listener).call_back = some .acceptconnection := by
    rw [hc.listening]
  have hk : occurred p.reactor listener (.accept fd) = some .enter :=
    if_neg (not_lt.mpr (Descriptors.accept_nonneg ha))
  obtain ⟨r', hr'⟩ : ∃ r',
      install { p.reactor.record (.accept fd) with fds := fds } fd = .ok r' := by
    cases hj : freeSlot p.reactor.Events with
    | none => exact ⟨_, install_full hj⟩
    | some j => exact ⟨_, install_free hj (hc.not_interested ha)⟩
  have hcall : callBack p.reactor listener .acceptconnection (.accept fd) = some (.ok r') :=
    (acceptconnection_eq hc ha).trans (congrArg some hr')
  exact call_realised h hst hs hcb hcall hk hact

lemma Stands.slot (hst : Stands p.reactor s) (hc : Consistent lfd p.reactor) {a b : Standing}
    (hm : s.move n a b = some s') :
    (a = .awaiting → ∃ i, Holds p.reactor i n ∧ (p.reactor.Events i).call_back = some .recvData) ∧
    (a = .answering → ∃ i, Holds p.reactor i n ∧
      (p.reactor.Events i).call_back = some .sendData) := by
  have hn := hst.standing n
  rw [(Multiplexer.move_eq_some.mp hm).1.2] at hn
  constructor
  · rintro rfl
    obtain ⟨i, hi, hev⟩ := hn
    rcases hc.armed i hi.client hi.status with ⟨-, hcb⟩ | ⟨hev', -⟩
    · exact ⟨i, hi, hcb⟩
    · exact absurd (hev.symm.trans hev') (by decide)
  · rintro rfl
    obtain ⟨i, hi, hev⟩ := hn
    rcases hc.armed i hi.client hi.status with ⟨hev', -⟩ | ⟨-, hcb⟩
    · exact absurd (hev.symm.trans hev') (by decide)
    · exact ⟨i, hi, hcb⟩

lemma start_idle (lfd : ℤ) (inherited : Finset ℤ) : Ready lfd (start lfd inherited) := by
  apply idle_ready (boot_consistent lfd inherited)
  obtain ⟨m, hm⟩ := (insert lfd inherited).exists_le
  refine ⟨max 0 (m + 1), le_max_left _ _, fun fd hfd => ?_⟩
  have hnew : fd ∉ insert lfd inherited := by
    intro hmem
    have hle := hm fd hmem
    omega
  rw [Finset.mem_insert, not_or] at hnew
  simp [boot, Descriptors.boot, hnew.1, hnew.2]

lemma realises (lfd : ℤ) (inherited : Finset ℤ) :
    System.Simulates (Multiplexer.system MAXEVENT) (system lfd inherited) (fun _ k => some k)
      observed fun s p => Ready lfd p ∧ Stands p.reactor s where
  initial := by
    rintro _ rfl
    exact ⟨start lfd inherited, rfl, start_idle lfd inherited, start_stands lfd inherited⟩
  step := by
    rintro s k s' p ⟨h, hst⟩ hact
    have hc : Consistent lfd p.reactor := h.sound.consistent
    cases k with
    | enter => exact enter_realised h hst hact
    | request n =>
      obtain ⟨i, hi, hcb⟩ := (hst.slot hc hact).1 rfl
      have hreg : Registered p.reactor i := hc.registers.registered hi.status
      have hcall : callBack p.reactor i .recvData (.recv (some [0])) = some (.ok _) :=
        congrArg some (recvData_data hreg 0 [])
      have hk : occurred p.reactor i (.recv (some [0])) = some (.request n) := by
        simp [occurred, hi.peer_eq]
      exact call_realised h hst hi.status hcb hcall hk hact
    | answer n =>
      obtain ⟨i, hi, hcb⟩ := (hst.slot hc hact).2 rfl
      have hreg : Registered p.reactor i := hc.registers.registered hi.status
      have hcall : callBack p.reactor i .sendData (.send 32) = some (.ok _) :=
        congrArg some (sendData_sent hreg (by decide))
      have hk : occurred p.reactor i (.send 32) = some (.answer n) := by
        simp [occurred, hi.peer_eq]
      exact call_realised h hst hi.status hcb hcall hk hact
    | leave n =>
      obtain ⟨i, hi, hcb⟩ := (hst.slot hc hact).1 rfl
      have hreg : Registered p.reactor i := hc.registers.registered hi.status
      have hcall : callBack p.reactor i .recvData (.recv none) = some (.ok _) :=
        congrArg some (recvData_closed hreg (Or.inl rfl))
      have hk : occurred p.reactor i (.recv none) = some (.leave n) := by
        simp [occurred, hi.peer_eq]
      exact call_realised h hst hi.status hcb hcall hk hact

/-- The reactor shows exactly the runs of a server with `MAXEVENT` seats, and its table holds
the clients as they stand. -/
theorem traces_exact (lfd : ℤ) (inherited : Finset ℤ) (es : List Multiplexer.Event) :
    (∀ s, (Multiplexer.system MAXEVENT).Run .empty es s ↔
      ∃ p, (journal lfd inherited).Reachable (p, es) ∧ Stands p.reactor s) ∧
    ∀ p, (journal lfd inherited).Reachable (p, es) →
      ∃ s, (Multiplexer.system MAXEVENT).Run .empty es s ∧ Stands p.reactor s := by
  have hshown : ∀ p, (journal lfd inherited).Reachable (p, es) →
      ∃ s, (Multiplexer.system MAXEVENT).Run .empty es s ∧ Sound lfd p ∧ Stands p.reactor s := by
    intro p hp
    obtain ⟨s, hreach, h, hs⟩ := (refines lfd inherited).observed hp
    obtain ⟨_, rfl, hrun⟩ := System.reachable_labels.mp hreach
    exact ⟨s, hrun, h, hs⟩
  refine ⟨fun s => ⟨fun hrun => ?_, ?_⟩, fun p hp => ?_⟩
  · have hreach := System.reachable_labels.mpr ⟨Multiplexer.empty, rfl, hrun⟩
    obtain ⟨p, hp, -, hs⟩ := (realises lfd inherited).observed hreach
    exact ⟨p, hp, hs⟩
  · rintro ⟨p, hp, hs⟩
    obtain ⟨s', hrun, h, hs'⟩ := hshown p hp
    have heq : s = s' := by
      apply Multiplexer.ext
      · rw [hs.entered, hs'.entered]
      · funext n
        exact (hs.standing n).eq h.consistent (hs'.standing n)
    rwa [heq]
  · obtain ⟨s, hrun, -, hs⟩ := hshown p hp
    exact ⟨s, hrun, hs⟩

theorem traces_exact_accepted : ∃ p, (journal 3 {0, 1, 2, 4}).Reachable (p, [.enter]) ∧
    ∃ s, (Multiplexer.system MAXEVENT).Run .empty [.enter] s ∧ Stands p.reactor s := by
  have hrun : ((journal 3 {0, 1, 2, 4}).exec (start 3 {0, 1, 2, 4}, [])
      (round 3 EPOLLIN (some (.accept 5)) none)).map (fun q => q.2) = some [.enter] := rfl
  have h₀ : (journal 3 {0, 1, 2, 4}).initial (start 3 {0, 1, 2, 4}, []) := ⟨rfl, rfl⟩
  obtain ⟨⟨p, es⟩, hp, hes⟩ := System.Reachable.observe h₀ hrun
  obtain rfl : es = [.enter] := hes
  exact ⟨p, hp, (traces_exact 3 {0, 1, 2, 4} [.enter]).2 p hp⟩

end UnixProgramming.EpollReactor
