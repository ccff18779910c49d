import UnixProgramming.EpollReactor.Orphans

/-! Requests and responses of each connection, in the order in which they are made. -/

namespace UnixProgramming.EpollReactor

open Library Library.Transition

inductive Exchange
  | request
  | response (len : ℕ)
  deriving DecidableEq, Repr

def requests (xs : List Exchange) : ℕ :=
  xs.countP (· == .request)

def responses (xs : List Exchange) : ℕ :=
  xs.countP (· != .request)

/-- The calls of `recvData` and `sendData` that return a positive count. -/
def Label.exchange : Label → Option Exchange
  | .test (some (.recv (some (_ :: _)))) => some .request
  | .test (some (.send len)) => if 0 < len then some (.response len.toNat) else none
  | _ => none

def current (p : Process) : Option ℕ :=
  match p.queue.head?.bind fun e => p.reactor.fds.file (p.reactor.Events e.ptr).fd with
  | some (.connection n) => some n
  | _ => none

def exchanged (x : ℕ → List Exchange) (p : Process) (l : Label) : ℕ → List Exchange :=
  match current p, l.exchange with
  | some n, some a => Function.update x n (x n ++ [a])
  | _, _ => x

def dialogue (lfd : ℤ) (inherited : Finset ℤ) :
    System (Process × (ℕ → List Exchange)) Label :=
  (system lfd inherited).record (fun _ => []) exchanged

structure Holds (r : Reactor) (i : Slot) (n : ℕ) : Prop where
  client : i ≠ listener
  status : (r.Events i).status = 1
  file : r.fds.file (r.Events i).fd = some (.connection n)

structure Alternates (r : Reactor) (x : ℕ → List Exchange) : Prop where
  ordered : ∀ n, responses (x n) ≤ requests (x n) ∧ requests (x n) ≤ responses (x n) + 1
  writable : ∀ n, (∃ i, Holds r i n ∧ (r.Events i).events = EPOLLOUT ∧
      (r.Events i).call_back = some .sendData) ↔ requests (x n) = responses (x n) + 1
  readable : ∀ n, (∃ i, Holds r i n ∧ (r.Events i).events = EPOLLIN ∧
      (r.Events i).call_back = some .recvData) ↔
    requests (x n) = responses (x n) ∧ ∃ fd, r.fds.file fd = some (.connection n)

def Answering (r : Reactor) (n : ℕ) : Prop :=
  ∃ i, Holds r i n ∧ (r.Events i).events = EPOLLOUT

/-- One request is unanswered while the slot waits to write, and none otherwise. -/
structure Turn (r : Reactor) (x : ℕ → List Exchange) : Prop where
  answering : ∀ n, Answering r n → requests (x n) = responses (x n) + 1
  waiting : ∀ n, ¬ Answering r n → requests (x n) = responses (x n)

variable {r r' : Reactor} {p p' : Process} {i j : Slot} {lfd : ℤ} {ret : Returned} {n m : ℕ}
  {inherited : Finset ℤ} {fds : Descriptors} {log : List Action} {x : ℕ → List Exchange}

section Slots

lemma Holds.unique (h : Consistent lfd r) (hi : Holds r i n) (hj : Holds r j n) : i = j :=
  h.registers.unique hi.status hj.status (r.fds.single _ _ n hi.file hj.file)

lemma Holds.connection (hi : Holds r i n) (hj : Holds r i m) : n = m := by
  cases hi.file.symm.trans hj.file
  rfl

lemma Consistent.holds (h : Consistent lfd r) (hi : i ≠ listener)
    (hs : (r.Events i).status = 1) : ∃ n, Holds r i n := by
  obtain ⟨n, hn⟩ := h.connected i hi hs
  exact ⟨n, hi, hs, hn⟩

lemma Holds.fresh (h : Consistent lfd r) (hi : Holds r i n) {fd : ℤ}
    (ha : r.fds.accept fd = some fds) : n ≠ r.fds.accepted ∧ (r.Events i).fd ≠ fd :=
  ⟨(r.fds.fresh _ n hi.file).ne, h.unregistered ha hi.status⟩

lemma holds_rearm {handler : CallBack} {events : Mask} :
    Holds (rearm { r with log := log } i handler events) j n ↔ Holds r j n := by
  by_cases hj : j = i
  · subst hj
    constructor
    · rintro ⟨hc, hs, hf⟩
      simp only [rearm, Reactor.watch_Events, Reactor.put_Events, Function.update_self,
        Reactor.watch_fds, Reactor.put_fds] at hs hf
      exact ⟨hc, hs, hf⟩
    · rintro ⟨hc, hs, hf⟩
      exact ⟨hc, by simpa [rearm] using hs, by simpa [rearm] using hf⟩
  · constructor
    · rintro ⟨hc, hs, hf⟩
      exact ⟨hc, by simpa [rearm, hj] using hs, by simpa [rearm, hj] using hf⟩
    · rintro ⟨hc, hs, hf⟩
      exact ⟨hc, by simpa [rearm, hj] using hs, by simpa [rearm, hj] using hf⟩

lemma holds_drop (h : Consistent lfd r) (hi : (r.Events i).status = 1) :
    Holds (drop { r with log := log } i) j n ↔ j ≠ i ∧ Holds r j n := by
  constructor
  · rintro ⟨hc, hs, hf⟩
    have hj : j ≠ i := by
      rintro rfl
      simp [drop, close] at hs
    have hs' : (r.Events j).status = 1 := by simpa [drop, close, hj] using hs
    have hne : (r.Events j).fd ≠ (r.Events i).fd := fun hfd =>
      hj (h.registers.unique hs' hi hfd)
    have hf' : (r.fds.close (r.Events i).fd).file (r.Events j).fd = some (.connection n) := by
      simpa [drop, close, hj] using hf
    exact ⟨hj, hc, hs', (Descriptors.close_file_ne hne).symm.trans hf'⟩
  · rintro ⟨hj, hc, hs, hf⟩
    have hne : (r.Events j).fd ≠ (r.Events i).fd := fun hfd => hj (h.registers.unique hs hi hfd)
    refine ⟨hc, by simpa [drop, close, hj] using hs, ?_⟩
    have hclose := (Descriptors.close_file_ne (d := r.fds) hne).trans hf
    simpa [drop, close, hj] using hclose

lemma holds_accept (h : Consistent lfd r) {fd : ℤ} (ha : r.fds.accept fd = some fds) :
    Holds { r with fds := fds, log := log } j n ↔ Holds r j n := by
  constructor
  · rintro ⟨hc, hs, hf⟩
    exact ⟨hc, hs, (Descriptors.accept_file_ne ha (h.unregistered ha hs)).symm.trans hf⟩
  · rintro ⟨hc, hs, hf⟩
    exact ⟨hc, hs, (Descriptors.accept_file_ne ha (h.unregistered ha hs)).trans hf⟩

lemma holds_enroll (hi : i ≠ listener) {fd : ℤ} (hf : r.fds.file fd = some (.connection m)) :
    Holds (enroll r i fd) j n ↔ j = i ∧ n = m ∨ j ≠ i ∧ Holds r j n := by
  by_cases hj : j = i
  · subst hj
    constructor
    · rintro ⟨-, -, hf'⟩
      have hf'' : r.fds.file fd = some (.connection n) := by simpa [enroll] using hf'
      cases hf.symm.trans hf''
      exact Or.inl ⟨rfl, rfl⟩
    · rintro (⟨-, rfl⟩ | ⟨hne, -⟩)
      · exact ⟨hi, by simp [enroll], by simpa [enroll] using hf⟩
      · exact absurd rfl hne
  · constructor
    · rintro ⟨hc, hs, hf'⟩
      exact Or.inr ⟨hj, hc, by simpa [enroll, hj] using hs, by simpa [enroll, hj] using hf'⟩
    · rintro (⟨heq, -⟩ | ⟨-, hc, hs, hf'⟩)
      · exact absurd heq hj
      · exact ⟨hc, by simpa [enroll, hj] using hs, by simpa [enroll, hj] using hf'⟩

lemma answering_rearm_self {handler : CallBack} {events : Mask} (h : Consistent lfd r)
    (hi : Holds r i n) :
    Answering (rearm { r with log := log } i handler events) n ↔ events = EPOLLOUT := by
  constructor
  · rintro ⟨j, hj, he⟩
    obtain rfl := (holds_rearm.mp hj).unique h hi
    simpa [rearm] using he
  · intro he
    exact ⟨i, holds_rearm.mpr hi, by simpa [rearm] using he⟩

lemma answering_rearm_ne {handler : CallBack} {events : Mask} (hi : Holds r i m) (hn : n ≠ m) :
    Answering (rearm { r with log := log } i handler events) n ↔ Answering r n := by
  have hother : ∀ j, Holds r j n → j ≠ i := by
    rintro j hj rfl
    exact hn (hj.connection hi)
  constructor
  · rintro ⟨j, hj, he⟩
    have hj' := holds_rearm.mp hj
    exact ⟨j, hj', by simpa [rearm, hother j hj'] using he⟩
  · rintro ⟨j, hj, he⟩
    exact ⟨j, holds_rearm.mpr hj, by simpa [rearm, hother j hj] using he⟩

lemma answering_drop (h : Consistent lfd r) (hi : (r.Events i).status = 1)
    (hev : (r.Events i).events ≠ EPOLLOUT) :
    Answering (drop { r with log := log } i) n ↔ Answering r n := by
  constructor
  · rintro ⟨j, hj, he⟩
    obtain ⟨hne, hj⟩ := (holds_drop h hi).mp hj
    exact ⟨j, hj, by simpa [drop, close, hne] using he⟩
  · rintro ⟨j, hj, he⟩
    have hne : j ≠ i := by
      rintro rfl
      exact hev he
    exact ⟨j, (holds_drop h hi).mpr ⟨hne, hj⟩, by simpa [drop, close, hne] using he⟩

lemma answering_accept (h : Consistent lfd r) {fd : ℤ} (ha : r.fds.accept fd = some fds) :
    Answering { r with fds := fds, log := log } n ↔ Answering r n :=
  exists_congr fun _ => and_congr_left fun _ => holds_accept h ha

lemma answering_enroll (hs : (r.Events i).status = 0) (hi : i ≠ listener) {fd : ℤ}
    (hf : r.fds.file fd = some (.connection m)) :
    Answering (enroll r i fd) n ↔ Answering r n := by
  constructor
  · rintro ⟨j, hj, he⟩
    rcases (holds_enroll hi hf).mp hj with ⟨rfl, -⟩ | ⟨hne, hj⟩
    · have hin : EPOLLIN = EPOLLOUT := by simpa [enroll] using he
      exact absurd hin (by decide)
    · exact ⟨j, hj, by simpa [enroll, hne] using he⟩
  · rintro ⟨j, hj, he⟩
    have hne : j ≠ i := by
      rintro rfl
      rw [hj.status] at hs
      cases hs
    exact ⟨j, (holds_enroll hi hf).mpr (Or.inr ⟨hne, hj⟩), by simpa [enroll, hne] using he⟩

end Slots

section Turns

lemma Turn.congr (h : Turn r x) (ha : ∀ n, Answering r' n ↔ Answering r n) : Turn r' x where
  answering n hn := h.answering n ((ha n).mp hn)
  waiting n hn := h.waiting n fun hr => hn ((ha n).mpr hr)

lemma requests_request (xs : List Exchange) : requests (xs ++ [.request]) = requests xs + 1 := by
  simp [requests]

lemma responses_request (xs : List Exchange) : responses (xs ++ [.request]) = responses xs := by
  simp [responses]

lemma requests_response (xs : List Exchange) (len : ℕ) :
    requests (xs ++ [.response len]) = requests xs := by
  simp [requests]

lemma responses_response (xs : List Exchange) (len : ℕ) :
    responses (xs ++ [.response len]) = responses xs + 1 := by
  simp [responses]

lemma current_holds {e : Reported} (he : p.queue.head? = some e) (hi : Holds p.reactor e.ptr n) :
    current p = some n := by
  simp only [current, he, Option.bind_some, hi.file]

lemma exchanged_none {l : Label} (h : l.exchange = none) : exchanged x p l = x := by
  simp only [exchanged, h]
  cases current p <;> rfl

lemma exchanged_some {l : Label} {a : Exchange} (hn : current p = some n)
    (ha : l.exchange = some a) : exchanged x p l = Function.update x n (x n ++ [a]) := by
  simp only [exchanged, hn, ha]

/-- Whether a step speaks with a client, and whose turn is next. -/
inductive Speaks (p p' : Process) (l : Label) : Prop
  | silent : l.exchange = none → (∀ n, Answering p'.reactor n ↔ Answering p.reactor n) →
      Speaks p p' l
  | asked (n : ℕ) : current p = some n → l.exchange = some .request →
      ¬ Answering p.reactor n → Answering p'.reactor n →
      (∀ m, m ≠ n → (Answering p'.reactor m ↔ Answering p.reactor m)) → Speaks p p' l
  | answered (n len : ℕ) : current p = some n → l.exchange = some (.response len) →
      Answering p.reactor n → ¬ Answering p'.reactor n →
      (∀ m, m ≠ n → (Answering p'.reactor m ↔ Answering p.reactor m)) → Speaks p p' l

lemma accept_silent (h : Consistent lfd r)
    (he : callBack r i .acceptconnection ret = some (.ok r')) :
    (∀ n, Answering r' n ↔ Answering r n) ∧ ∃ fd, ret = .accept fd := by
  cases ret with
  | accept fd =>
    refine ⟨?_, fd, rfl⟩
    by_cases hfd : fd < 0
    · cases acceptconnection_fails hfd he
    · obtain ⟨fds, ha, hinst⟩ := acceptconnection_accepts (not_lt.mp hfd) he
      cases hj : freeSlot r.Events with
      | none =>
        cases hinst.trans (install_full hj)
        exact fun _ => answering_accept h ha
      | some j =>
        cases hinst.trans (install_free hj (h.not_interested ha))
        obtain ⟨hne, hs⟩ := freeSlot_some hj
        let q : Reactor := { r.record (.accept fd) with fds := fds }
        have hq : ∀ n, Answering q n ↔ Answering r n := fun _ => answering_accept h ha
        exact fun n => (answering_enroll (r := q) hs hne
          (Descriptors.accept_file_self ha)).trans (hq n)
  | recv bytes | send len => cases he

lemma recv_speaks {bytes : Option (List UInt8)} {e : Reported} (h : Sound lfd p)
    (hcur : current p = some n) (hn : Holds p.reactor e.ptr n)
    (hev : (p.reactor.Events e.ptr).events = EPOLLIN)
    (hres : recvData p.reactor e.ptr bytes = .ok p'.reactor) :
    Speaks p p' (.test (some (.recv bytes))) := by
  have hreg := h.consistent.registers.registered hn.status
  rcases recv_cases bytes with hclosed | ⟨b, bs, rfl⟩
  · rw [recvData_closed hreg hclosed] at hres
    refine .silent (by rcases hclosed with rfl | rfl <;> rfl) fun m => ?_
    rw [← Except.ok.inj hres]
    exact answering_drop h.consistent hn.status (by rw [hev]; decide)
  · rw [recvData_data hreg] at hres
    refine .asked n hcur rfl ?_ ?_ fun m hm => ?_
    · rintro ⟨j, hj, he⟩
      rw [hj.unique h.consistent hn, hev] at he
      exact absurd he (by decide)
    · rw [← Except.ok.inj hres]
      exact (answering_rearm_self h.consistent hn).mpr rfl
    · rw [← Except.ok.inj hres]
      exact answering_rearm_ne hn hm

lemma send_speaks {len : ℤ} {e : Reported} (h : Sound lfd p) (hcur : current p = some n)
    (hn : Holds p.reactor e.ptr n) (hev : (p.reactor.Events e.ptr).events = EPOLLOUT)
    (hlen : 0 < len) (hres : sendData p.reactor e.ptr len = .ok p'.reactor) :
    Speaks p p' (.test (some (.send len))) := by
  rw [sendData_sent (h.consistent.registers.registered hn.status) hlen] at hres
  refine .answered n len.toNat hcur (if_pos hlen) ⟨e.ptr, hn, hev⟩ ?_ fun m hm => ?_
  · rw [← Except.ok.inj hres]
    exact fun ha => absurd ((answering_rearm_self h.consistent hn).mp ha) (by decide)
  · rw [← Except.ok.inj hres]
    exact answering_rearm_ne hn hm

lemma step_speaks {l : Label} (h : Sound lfd p) (he : step p l = some p') : Speaks p p' l := by
  by_cases hl : ∃ ret, l = .test (some ret)
  · obtain ⟨ret, rfl⟩ := hl
    obtain ⟨e, handler, hhead, hs, hcb, hres⟩ := test_called h he
    have hreg := h.consistent.registers.registered hs
    have hkept : p'.reactor = p.reactor → ∀ n, Answering p'.reactor n ↔ Answering p.reactor n :=
      fun hr n => by rw [hr]
    rcases h.consistent.armed_handler hs hcb with ⟨-, -, rfl⟩ | ⟨hi, ⟨hev, rfl⟩ | ⟨hev, rfl⟩⟩
    · rcases hres with ⟨hres, -⟩ | ⟨_, hres, hr, -⟩
      · obtain ⟨ha, fd, rfl⟩ := accept_silent h.consistent hres
        exact .silent rfl ha
      · cases ret with
        | accept fd => exact .silent rfl (hkept hr)
        | recv bytes | send len => cases hres
    · obtain ⟨n, hn⟩ := h.consistent.holds hi hs
      have hcur : current p = some n := current_holds hhead hn
      cases ret with
      | recv bytes =>
        simp only [callBack, Option.ite_none_right_eq_some, Option.some.injEq] at hres
        rcases hres with ⟨⟨-, hres⟩, -⟩ | ⟨_, ⟨-, hres⟩, -⟩
        · exact recv_speaks h hcur hn hev hres
        · rcases recv_cases bytes with hclosed | ⟨b, bs, rfl⟩
          · rw [recvData_closed hreg hclosed] at hres
            cases hres
          · rw [recvData_data hreg] at hres
            cases hres
      | accept fd | send len => rcases hres with ⟨hres, -⟩ | ⟨_, hres, -⟩ <;> cases hres
    · obtain ⟨n, hn⟩ := h.consistent.holds hi hs
      have hcur : current p = some n := current_holds hhead hn
      cases ret with
      | send len =>
        simp only [callBack, Option.ite_none_right_eq_some, Option.some.injEq] at hres
        by_cases hlen : 0 < len
        · rcases hres with ⟨⟨-, hres⟩, -⟩ | ⟨_, ⟨-, hres⟩, -⟩
          · exact send_speaks h hcur hn hev hlen hres
          · rw [sendData_sent hreg hlen] at hres
            cases hres
        · rcases hres with ⟨⟨-, hres⟩, -⟩ | ⟨_, -, hr, -⟩
          · rw [sendData_failed hreg hlen] at hres
            cases hres
          · exact .silent (if_neg hlen) (hkept hr)
      | accept fd | recv bytes => rcases hres with ⟨hres, -⟩ | ⟨_, hres, -⟩ <;> cases hres
  · have hnone : l.exchange = none := by
      cases l with
      | test ret =>
        cases ret with
        | some ret => exact absurd ⟨ret, rfl⟩ hl
        | none => rfl
      | wait ready | waitFails | advance => rfl
    refine .silent hnone fun n => ?_
    rw [step_reactor (fun ret hr => hl ⟨ret, hr⟩) he]

lemma step_turn {l : Label} (h : Sound lfd p) (hx : Turn p.reactor x) (he : step p l = some p') :
    Turn p'.reactor (exchanged x p l) := by
  cases step_speaks h he with
  | silent hnone ha =>
    rw [exchanged_none hnone]
    exact hx.congr ha
  | asked n hcur hask hidle hnext hother =>
    rw [exchanged_some hcur hask]
    constructor
    · intro m hm
      by_cases hmn : m = n
      · subst hmn
        rw [Function.update_self, requests_request, responses_request, hx.waiting m hidle]
      · rw [Function.update_of_ne hmn]
        exact hx.answering m ((hother m hmn).mp hm)
    · intro m hm
      by_cases hmn : m = n
      · subst hmn
        exact absurd hnext hm
      · rw [Function.update_of_ne hmn]
        exact hx.waiting m fun ha => hm ((hother m hmn).mpr ha)
  | answered n len hcur hans hbusy hnext hother =>
    rw [exchanged_some hcur hans]
    constructor
    · intro m hm
      by_cases hmn : m = n
      · subst hmn
        exact absurd hm hnext
      · rw [Function.update_of_ne hmn]
        exact hx.answering m ((hother m hmn).mp hm)
    · intro m hm
      by_cases hmn : m = n
      · subst hmn
        rw [Function.update_self, requests_response, responses_response, hx.answering m hbusy]
      · rw [Function.update_of_ne hmn]
        exact hx.waiting m fun ha => hm ((hother m hmn).mpr ha)

end Turns

section Run

lemma Turn.alternates (h : Consistent lfd r) (hu : Unorphaned r) (hx : Turn r x) :
    Alternates r x := by
  have hboth : ∀ n, Answering r n ↔ requests (x n) = responses (x n) + 1 := by
    intro n
    constructor
    · exact hx.answering n
    · intro hn
      by_contra ha
      have hidle := hx.waiting n ha
      omega
  refine ⟨fun n => ?_, fun n => ?_, fun n => ?_⟩
  · by_cases ha : Answering r n
    · have hn := hx.answering n ha
      omega
    · have hn := hx.waiting n ha
      omega
  · rw [← hboth n]
    constructor
    · rintro ⟨i, hi, he, -⟩
      exact ⟨i, hi, he⟩
    · rintro ⟨i, hi, he⟩
      rcases h.armed i hi.client hi.status with ⟨hin, -⟩ | ⟨-, hcb⟩
      · exact absurd (hin.symm.trans he) (by decide)
      · exact ⟨i, hi, he, hcb⟩
  · constructor
    · rintro ⟨i, hi, he, -⟩
      refine ⟨hx.waiting n ?_, _, hi.file⟩
      rintro ⟨j, hj, hout⟩
      rw [hj.unique h hi, he] at hout
      exact absurd hout (by decide)
    · rintro ⟨hn, fd, hf⟩
      obtain ⟨i, ⟨hc, hs, rfl⟩, -⟩ := hu.held fd n hf
      have hi : Holds r i n := ⟨hc, hs, hf⟩
      rcases h.armed i hc hs with ⟨hin, hcb⟩ | ⟨hout, -⟩
      · exact ⟨i, hi, hin, hcb⟩
      · have hpending := hx.answering n ⟨i, hi, hout⟩
        omega

lemma leak_breaks (h : Consistent lfd r) {fd : ℤ} (ha : r.fds.accept fd = some fds)
    (hx : Turn { r with fds := fds, log := log } x) :
    ¬ Alternates { r with fds := fds, log := log } x := by
  intro halt
  have hnone : ∀ i, ¬ Holds { r with fds := fds, log := log } i r.fds.accepted := fun i hi =>
    (((holds_accept h ha).mp hi).fresh h ha).1 rfl
  have hidle : ¬ Answering { r with fds := fds, log := log } r.fds.accepted := by
    rintro ⟨i, hi, -⟩
    exact hnone i hi
  obtain ⟨i, hi, -⟩ := (halt.readable r.fds.accepted).mpr
    ⟨hx.waiting _ hidle, fd, Descriptors.accept_file_self ha⟩
  exact hnone i hi

structure Conversing (lfd : ℤ) (q : Process × (ℕ → List Exchange)) : Prop where
  sound : Sound lfd q.1
  turn : q.1.exit = none → Turn q.1.reactor q.2

lemma start_turn (lfd : ℤ) (inherited : Finset ℤ) :
    Turn (start lfd inherited).reactor fun _ => [] where
  answering n := by
    rintro ⟨i, hi, -⟩
    exact absurd hi.file Descriptors.boot_connection
  waiting _ _ := rfl

lemma conversing_inductive (lfd : ℤ) (inherited : Finset ℤ) :
    (dialogue lfd inherited).Inductive (Conversing lfd) where
  initial := by
    rintro ⟨_, _⟩ ⟨rfl, rfl⟩
    exact ⟨start_sound lfd inherited, fun _ => start_turn lfd inherited⟩
  step q l q' h he := by
    obtain ⟨he, hx⟩ := System.record_step.mp he
    refine ⟨(sound_inductive lfd inherited).step q.1 l q'.1 h.sound he, fun hexit => ?_⟩
    rw [hx]
    exact step_turn h.sound (h.turn (step_exit he)) he

end Run

/-- In every run each connection's requests and responses take turns, as its slot tells,
up to the first connection that is accepted when the table is full. -/
theorem alternates_iff (lfd : ℤ) (inherited : Finset ℤ) (ls : List Label)
    (q : Process × (ℕ → List Exchange))
    (hr : (dialogue lfd inherited).Run (start lfd inherited, fun _ => []) ls q) :
    (dialogue lfd inherited).Along (fun q => q.1.exit = none → Alternates q.1.reactor q.2)
        (start lfd inherited, fun _ => []) ls ↔
      (dialogue lfd inherited).Guarded (fun q l => AcceptsVacant q.1 l)
        (start lfd inherited, fun _ => []) ls := by
  have h₀ : Conversing lfd (start lfd inherited, fun _ => []) :=
    (conversing_inductive lfd inherited).initial _ ⟨rfl, rfl⟩
  apply System.along_iff_guarded
    (K := fun q => Conversing lfd q ∧ Unorphaned q.1.reactor) _ _ _
    ⟨h₀, start_unorphaned lfd inherited⟩ hr
  · rintro q ⟨h, hu⟩ hexit
    exact (h.turn hexit).alternates h.sound.consistent hu
  · rintro q l q' ⟨h, hu⟩ hg he
    exact ⟨(conversing_inductive lfd inherited).step q l q' h he,
      step_unorphaned h.sound hu hg (System.record_step.mp he).1⟩
  · rintro q l q' ⟨h, -⟩ hg he halt
    have h' := (conversing_inductive lfd inherited).step q l q' h he
    obtain ⟨hexit, fd, fds, log, -, ha, hr'⟩ :=
      step_leaks h.sound hg (System.record_step.mp he).1
    have hturn := h'.turn hexit
    have hkept := halt hexit
    rw [hr'] at hturn hkept
    exact leak_breaks h.sound.consistent ha hturn hkept

theorem alternates_iff_answered : ∃ q,
    (dialogue 3 {0, 1, 2, 4}).Run (start 3 {0, 1, 2, 4}, fun _ => [])
      (round 3 EPOLLIN (some (.accept 5)) none ++
        round 5 EPOLLIN (some (.recv (some [65]))) none) q ∧
    ((dialogue 3 {0, 1, 2, 4}).Along (fun q => q.1.exit = none → Alternates q.1.reactor q.2)
        (start 3 {0, 1, 2, 4}, fun _ => []) (round 3 EPOLLIN (some (.accept 5)) none ++
          round 5 EPOLLIN (some (.recv (some [65]))) none) ↔
      (dialogue 3 {0, 1, 2, 4}).Guarded (fun q l => AcceptsVacant q.1 l)
        (start 3 {0, 1, 2, 4}, fun _ => []) (round 3 EPOLLIN (some (.accept 5)) none ++
          round 5 EPOLLIN (some (.recv (some [65]))) none)) := by
  have hrun : ((dialogue 3 {0, 1, 2, 4}).exec (start 3 {0, 1, 2, 4}, fun _ => [])
      (round 3 EPOLLIN (some (.accept 5)) none ++
        round 5 EPOLLIN (some (.recv (some [65]))) none)).isSome = true := rfl
  obtain ⟨q, hr⟩ := System.exists_run hrun
  exact ⟨q, hr, alternates_iff 3 {0, 1, 2, 4} _ q hr⟩

/-- One more client than the table has slots: it is connected, and no slot waits for its
requests. -/
theorem full_table_unheard : ∃ q, (dialogue 3 {0, 1, 2, 4}).Reachable q ∧ q.1.exit = none ∧
    ¬ Alternates q.1.reactor q.2 := by
  obtain ⟨p, hp, hr, hv⟩ := connect_all {0, 1, 2, 4} _ start_ready le_rfl
  obtain ⟨fd, fds, ha⟩ := exists_unopened hr
  have he := accept_round {0, 1, 2, 4} hr ha
    (install_full (by exact full_freeSlot hv)) rfl
  obtain ⟨ls, hrun⟩ := hp.trans (.exec he)
  obtain ⟨x, hx⟩ := hrun.record (f := exchanged) (fun _ => [])
  have hreach : (dialogue 3 {0, 1, 2, 4}).Reachable (_, x) :=
    ⟨(start 3 {0, 1, 2, 4}, fun _ => []), ⟨rfl, rfl⟩, ls, hx⟩
  have hturn := ((conversing_inductive 3 {0, 1, 2, 4}).reachable hreach).turn rfl
  exact ⟨_, hreach, rfl, leak_breaks (r := p.reactor) hr.sound.consistent ha hturn⟩

end UnixProgramming.EpollReactor
