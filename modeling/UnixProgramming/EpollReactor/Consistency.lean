import UnixProgramming.EpollReactor.Handlers

/-! The table and the epoll set agree, and a call-back leaves the slots of the
other connections alone. -/

namespace UnixProgramming.EpollReactor

open Library Library.Transition

variable {r r' : Reactor} {i j : Slot} {lfd : ℤ} {handler : CallBack} {ret : Returned}

def Registers (r : Reactor) : Prop :=
  ∀ fd i events, r.interest fd = some (i, events) ↔
    (r.Events i).status = 1 ∧ (r.Events i).fd = fd ∧ (r.Events i).events = events

structure Consistent (lfd : ℤ) (r : Reactor) : Prop where
  flag : ∀ i, (r.Events i).status = 0 ∨ (r.Events i).status = 1
  registers : Registers r
  listening : r.Events listener = ⟨lfd, EPOLLIN, some listener, 1, some .acceptconnection⟩
  listens : r.fds.file lfd = some .listener
  connected : ∀ i, i ≠ listener → (r.Events i).status = 1 →
    ∃ n, r.fds.file (r.Events i).fd = some (.connection n)
  armed : ∀ i, i ≠ listener → (r.Events i).status = 1 →
    (r.Events i).events = EPOLLIN ∧ (r.Events i).call_back = some .recvData ∨
      (r.Events i).events = EPOLLOUT ∧ (r.Events i).call_back = some .sendData

def Undisturbed (r : Reactor) (i : Slot) (r' : Reactor) : Prop :=
  ∀ j, j ≠ i → (r.Events j).status = 1 → r'.Events j = r.Events j ∧
    r'.fds.file (r.Events j).fd = r.fds.file (r.Events j).fd

/-- What a call-back that returns has done to the reactor, its log apart. -/
inductive Effect (r : Reactor) (i : Slot) : Returned → Reactor → Prop
  | rearm {ret : Returned} {log : List Action} {handler : CallBack} {events : Mask} :
      (∀ fd, ret ≠ .accept fd) → i ≠ listener →
      (events = EPOLLIN ∧ handler = .recvData ∨ events = EPOLLOUT ∧ handler = .sendData) →
      Effect r i ret (rearm { r with log := log } i handler events)
  | drop {ret : Returned} {log : List Action} : (∀ fd, ret ≠ .accept fd) → i ≠ listener →
      Effect r i ret (drop { r with log := log } i)
  | enroll {log : List Action} {j : Slot} {ret : ℤ} {fds : Descriptors} :
      r.fds.accept ret = some fds → freeSlot r.Events = some j →
      Effect r i (.accept ret) (enroll { r with fds := fds, log := log } j ret)
  | leak {log : List Action} {ret : ℤ} {fds : Descriptors} :
      r.fds.accept ret = some fds → freeSlot r.Events = none →
      Effect r i (.accept ret) { r with fds := fds, log := log }

lemma Registers.registered (h : Registers r) (hs : (r.Events i).status = 1) : Registered r i :=
  ⟨hs, _, (h _ i _).mpr ⟨hs, rfl, rfl⟩⟩

lemma Registers.unique (h : Registers r) (hi : (r.Events i).status = 1)
    (hj : (r.Events j).status = 1) (hfd : (r.Events i).fd = (r.Events j).fd) : i = j := by
  have h₁ := (h _ i _).mpr ⟨hi, rfl, rfl⟩
  have h₂ := (h _ j _).mpr ⟨hj, hfd.symm, rfl⟩
  rw [h₁] at h₂
  exact congrArg Prod.fst (Option.some.inj h₂)

lemma Registers.update (h : Registers r) {e : Event} (hold : (r.Events i).status = 1 →
    (r.Events i).fd = e.fd) (hother : ∀ j, j ≠ i → (r.Events j).status = 1 →
    (r.Events j).fd ≠ e.fd) :
    Registers ((r.put i e).watch e.fd (if e.status = 1 then some (i, e.events) else none)) := by
  intro fd j events
  by_cases hfd : fd = e.fd
  · subst hfd
    by_cases hj : j = i
    · subst hj
      by_cases he : e.status = 1 <;> simp [he]
    · have hne := hother j hj
      have hij : i ≠ j := Ne.symm hj
      by_cases he : e.status = 1 <;> simp [he, hj, hij] <;> exact fun hs hf => absurd hf (hne hs)
  · have hr := h fd j events
    by_cases hj : j = i
    · subst hj
      have hne : ¬ ((r.Events j).status = 1 ∧ (r.Events j).fd = fd ∧
          (r.Events j).events = events) := by
        rintro ⟨hs, hf, -⟩
        exact hfd (hf.symm.trans (hold hs))
      simp [hfd, Ne.symm hfd, hr, hne]
    · simp [hfd, hj, hr]

lemma Consistent.opened (h : Consistent lfd r) (hs : (r.Events i).status = 1) :
    ∃ f, r.fds.file (r.Events i).fd = some f := by
  by_cases hi : i = listener
  · rw [hi, h.listening]
    exact ⟨_, h.listens⟩
  · obtain ⟨n, hn⟩ := h.connected i hi hs
    exact ⟨_, hn⟩

lemma Consistent.unregistered (h : Consistent lfd r) {ret : ℤ} {fds : Descriptors}
    (ha : r.fds.accept ret = some fds) (hs : (r.Events i).status = 1) :
    (r.Events i).fd ≠ ret := by
  rintro rfl
  obtain ⟨f, hf⟩ := h.opened hs
  rw [Descriptors.accept_closed ha] at hf
  cases hf

lemma Consistent.not_interested (h : Consistent lfd r) {ret : ℤ} {fds : Descriptors}
    (ha : r.fds.accept ret = some fds) : r.interest ret = none := by
  cases he : r.interest ret with
  | none => rfl
  | some entry =>
    obtain ⟨hs, hfd, -⟩ := (h.registers ret entry.1 entry.2).mp he
    exact absurd hfd (h.unregistered ha hs)

lemma Consistent.armed_handler (h : Consistent lfd r) (hs : (r.Events i).status = 1)
    (hcb : (r.Events i).call_back = some handler) :
    i = listener ∧ (r.Events i).events = EPOLLIN ∧ handler = .acceptconnection ∨
      i ≠ listener ∧ ((r.Events i).events = EPOLLIN ∧ handler = .recvData ∨
        (r.Events i).events = EPOLLOUT ∧ handler = .sendData) := by
  by_cases hi : i = listener
  · subst hi
    rw [h.listening] at hcb ⊢
    exact Or.inl ⟨rfl, rfl, (Option.some.inj hcb).symm⟩
  · refine Or.inr ⟨hi, ?_⟩
    rcases h.armed i hi hs with ⟨he, hc⟩ | ⟨he, hc⟩
    · exact Or.inl ⟨he, Option.some.inj (hcb.symm.trans hc)⟩
    · exact Or.inr ⟨he, Option.some.inj (hcb.symm.trans hc)⟩

lemma callBack_effect (h : Consistent lfd r) (hs : (r.Events i).status = 1)
    (hcb : (r.Events i).call_back = some handler)
    (he : callBack r i handler ret = some (.ok r')) : Effect r i ret r' := by
  have hreg : Registered r i := h.registers.registered hs
  rcases h.armed_handler hs hcb with ⟨-, -, rfl⟩ | ⟨hi, ⟨-, rfl⟩ | ⟨-, rfl⟩⟩
  · cases ret with
    | accept ret =>
      by_cases hr : ret < 0
      · cases acceptconnection_fails hr he
      · obtain ⟨fds, ha, hok⟩ := acceptconnection_accepts (not_lt.mp hr) he
        cases hj : freeSlot r.Events with
        | none =>
          cases hok.trans (install_full hj)
          exact .leak ha hj
        | some j =>
          cases hok.trans (install_free hj (h.not_interested ha))
          exact .enroll ha hj
    | recv bytes | send len => cases he
  · cases ret with
    | recv bytes =>
      simp only [callBack, Option.ite_none_right_eq_some, Option.some.injEq] at he
      obtain ⟨-, he⟩ := he
      rcases recv_cases bytes with hclosed | ⟨b, bs, rfl⟩
      · rw [recvData_closed hreg hclosed] at he
        cases he
        exact .drop (by simp) hi
      · rw [recvData_data hreg] at he
        cases he
        exact .rearm (by simp) hi (Or.inr ⟨rfl, rfl⟩)
    | accept ret | send len => cases he
  · cases ret with
    | send len =>
      simp only [callBack, Option.ite_none_right_eq_some, Option.some.injEq] at he
      obtain ⟨-, he⟩ := he
      by_cases hl : 0 < len
      · rw [sendData_sent hreg hl] at he
        cases he
        exact .rearm (by simp) hi (Or.inl ⟨rfl, rfl⟩)
      · rw [sendData_failed hreg hl] at he
        cases he
    | accept ret | recv bytes => cases he

lemma Effect.undisturbed (h : Consistent lfd r) (hs : (r.Events i).status = 1)
    (he : Effect r i ret r') : Undisturbed r i r' := by
  intro j hj hsj
  cases he with
  | rearm => exact ⟨Function.update_of_ne hj _ _, rfl⟩
  | drop =>
    refine ⟨Function.update_of_ne hj _ _, Descriptors.close_file_ne fun hfd => ?_⟩
    exact hj (h.registers.unique hsj hs hfd)
  | @enroll _ k ret fds ha hk =>
    have hjk : j ≠ k := by
      rintro rfl
      rw [(freeSlot_some hk).2] at hsj
      cases hsj
    exact ⟨Function.update_of_ne hjk _ _, Descriptors.accept_file_ne ha (h.unregistered ha hsj)⟩
  | @leak _ ret fds ha => exact ⟨rfl, Descriptors.accept_file_ne ha (h.unregistered ha hsj)⟩

lemma Effect.listener (h : Consistent lfd r) (hs : (r.Events i).status = 1)
    (he : Effect r i ret r') :
    r'.Events listener = r.Events listener ∧ r'.fds.file lfd = r.fds.file lfd := by
  have hl : (r.Events EpollReactor.listener).status = 1 := by rw [h.listening]
  have hfd : (r.Events EpollReactor.listener).fd = lfd := by rw [h.listening]
  by_cases hi : i = EpollReactor.listener
  · cases he with
    | rearm _ hne | drop _ hne => exact absurd hi hne
    | enroll ha hk =>
      refine ⟨Function.update_of_ne (freeSlot_some hk).1.symm _ _, ?_⟩
      exact Descriptors.accept_file_ne ha (hfd ▸ h.unregistered ha hl)
    | leak ha => exact ⟨rfl, Descriptors.accept_file_ne ha (hfd ▸ h.unregistered ha hl)⟩
  · obtain ⟨h₁, h₂⟩ := he.undisturbed h hs _ (Ne.symm hi) hl
    exact ⟨h₁, hfd ▸ h₂⟩

lemma Effect.registers (h : Consistent lfd r) (hs : (r.Events i).status = 1)
    (he : Effect r i ret r') : Registers r' := by
  have hother : ∀ j, j ≠ i → (r.Events j).status = 1 → (r.Events j).fd ≠ (r.Events i).fd :=
    fun j hj hsj hfd => hj (h.registers.unique hsj hs hfd)
  cases he with
  | @rearm _ _ handler events =>
    have hu := h.registers.update (i := i)
      (e := { r.Events i with events := events, call_back := some handler }) (fun _ => rfl) hother
    rwa [if_pos hs] at hu
  | drop =>
    have hu := h.registers.update (i := i) (e := { r.Events i with status := 0 }) (fun _ => rfl)
      hother
    rwa [if_neg (by simp)] at hu
  | @enroll _ k ret fds ha hk =>
    have hk₀ := (freeSlot_some hk).2
    have hu := h.registers.update (i := k) (e := ⟨ret, EPOLLIN, some k, 1, some .recvData⟩)
      (fun hsk => by rw [hk₀] at hsk; cases hsk) fun j _ hsj => h.unregistered ha hsj
    rwa [if_pos rfl] at hu
  | leak => exact h.registers

lemma Effect.client (h : Consistent lfd r) (hs : (r.Events i).status = 1) (he : Effect r i ret r') :
    ∀ j, j ≠ EpollReactor.listener → (r'.Events j).status = 1 →
      (∃ n, r'.fds.file (r'.Events j).fd = some (.connection n)) ∧
        ((r'.Events j).events = EPOLLIN ∧ (r'.Events j).call_back = some .recvData ∨
          (r'.Events j).events = EPOLLOUT ∧ (r'.Events j).call_back = some .sendData) := by
  intro j hj hsj
  have hkept : (r.Events j).status = 1 → r'.Events j = r.Events j →
      r'.fds.file (r.Events j).fd = r.fds.file (r.Events j).fd →
      (∃ n, r'.fds.file (r'.Events j).fd = some (.connection n)) ∧
        ((r'.Events j).events = EPOLLIN ∧ (r'.Events j).call_back = some .recvData ∨
          (r'.Events j).events = EPOLLOUT ∧ (r'.Events j).call_back = some .sendData) := by
    intro hsr hev hf
    rw [hev, hf]
    exact ⟨h.connected j hj hsr, h.armed j hj hsr⟩
  by_cases hji : j = i
  · subst hji
    cases he with
    | rearm _ _ harm =>
      refine ⟨?_, ?_⟩
      · simpa [EpollReactor.rearm] using h.connected j hj hs
      · simpa [EpollReactor.rearm] using harm
    | drop => simp [EpollReactor.drop, close] at hsj
    | enroll ha hk =>
      have hjk : j ≠ _ := fun hjk => by
        rw [hjk, (freeSlot_some hk).2] at hs
        cases hs
      exact hkept hs (Function.update_of_ne hjk _ _)
        (Descriptors.accept_file_ne ha (h.unregistered ha hs))
    | leak ha => exact hkept hs rfl (Descriptors.accept_file_ne ha (h.unregistered ha hs))
  · by_cases hsr : (r.Events j).status = 1
    · obtain ⟨hev, hf⟩ := he.undisturbed h hs j hji hsr
      exact hkept hsr hev hf
    · -- the slot was free, so it is the one that was enrolled
      cases he with
      | rearm => exact absurd (by simpa [EpollReactor.rearm, hji] using hsj) hsr
      | drop => exact absurd (by simpa [EpollReactor.drop, close, hji] using hsj) hsr
      | @enroll _ k ret fds ha hk =>
        by_cases hjk : j = k
        · subst hjk
          refine ⟨⟨r.fds.accepted, ?_⟩, Or.inl ?_⟩
          · simpa [EpollReactor.enroll] using Descriptors.accept_file_self ha
          · simp [EpollReactor.enroll]
        · exact absurd (by simpa [EpollReactor.enroll, hjk] using hsj) hsr
      | leak => exact absurd hsj hsr

lemma Effect.flag (h : Consistent lfd r) (he : Effect r i ret r') :
    ∀ j, (r'.Events j).status = 0 ∨ (r'.Events j).status = 1 := by
  intro j
  cases he with
  | rearm =>
    by_cases hj : j = i
    · simpa [EpollReactor.rearm, hj] using h.flag i
    · simpa [EpollReactor.rearm, hj] using h.flag j
  | drop =>
    by_cases hj : j = i
    · simp [EpollReactor.drop, close, hj]
    · simpa [EpollReactor.drop, close, hj] using h.flag j
  | @enroll _ k =>
    by_cases hj : j = k
    · simp [EpollReactor.enroll, hj]
    · simpa [EpollReactor.enroll, hj] using h.flag j
  | leak => exact h.flag j

lemma Effect.consistent (h : Consistent lfd r) (hs : (r.Events i).status = 1)
    (he : Effect r i ret r') : Consistent lfd r' := by
  obtain ⟨hl, hf⟩ := he.listener h hs
  have hc := he.client h hs
  refine ⟨he.flag h, he.registers h hs, hl.trans h.listening, hf.trans h.listens,
    fun j hj hsj => (hc j hj hsj).1, fun j hj hsj => (hc j hj hsj).2⟩

lemma boot_consistent (lfd : ℤ) (inherited : Finset ℤ) : Consistent lfd (boot lfd inherited) := by
  have hother : ∀ i, i ≠ listener → (boot lfd inherited).Events i = Event.zero :=
    fun i hi => by simp [boot, hi]
  have hself : (boot lfd inherited).Events listener =
      ⟨lfd, EPOLLIN, some listener, 1, some .acceptconnection⟩ := by simp [boot]
  refine ⟨fun i => ?_, fun fd i events => ?_, hself, ?_, fun i hi hs => ?_, fun i hi hs => ?_⟩
  · by_cases hi : i = listener
    · rw [hi, hself]
      exact Or.inr rfl
    · rw [hother i hi]
      exact Or.inl rfl
  · by_cases hi : i = listener
    · subst hi
      rw [hself]
      by_cases hfd : fd = lfd
      · simp [boot, hfd]
      · simp [boot, hfd, Ne.symm hfd]
    · rw [hother i hi]
      by_cases hfd : fd = lfd
      · simp [boot, hfd, Event.zero, Ne.symm hi]
      · simp [boot, hfd, Event.zero]
  · simp [boot, Descriptors.boot]
  · rw [hother i hi] at hs
    cases hs
  · rw [hother i hi] at hs
    cases hs

end UnixProgramming.EpollReactor
