import UnixProgramming.EpollReactor.Alternation
import UnixProgramming.Library.Multiplexer

/-! The reactor is a server with `MAXEVENT` seats, whose clients are the connections. -/

namespace UnixProgramming.EpollReactor

open Library Library.Transition

variable {r r' : Reactor} {p p' : Process} {i j : Slot} {lfd : ℤ} {ret : Returned} {n m : ℕ}
  {inherited : Finset ℤ} {fds : Descriptors} {log : List Action} {handler : CallBack}
  {mask events : Mask} {s : Multiplexer} {a b : Standing} {k : Multiplexer.Event}

def peer (r : Reactor) (i : Slot) : Option ℕ :=
  match r.fds.file (r.Events i).fd with
  | some (.connection n) => some n
  | _ => none

def occurred (r : Reactor) (i : Slot) : Returned → Option Multiplexer.Event
  | .accept fd => if fd < 0 then none else some .enter
  | .recv (some (_ :: _)) => (peer r i).map .request
  | .recv (some []) | .recv none => (peer r i).map .leave
  | .send len => if 0 < len then (peer r i).map .answer else none

def observed (p : Process) : Label → Option Multiplexer.Event
  | .test (some ret) => p.queue.head?.bind fun e => occurred p.reactor e.ptr ret
  | .test none | .wait _ | .waitFails | .advance => none

def journal (lfd : ℤ) (inherited : Finset ℤ) : System (Process × List Multiplexer.Event) Label :=
  (system lfd inherited).journal observed

def Waits (r : Reactor) (events : Mask) (n : ℕ) : Prop :=
  ∃ i, Holds r i n ∧ (r.Events i).events = events

def Opened (r : Reactor) (n : ℕ) : Prop :=
  ∃ fd, r.fds.file fd = some (.connection n)

def StandsAs (r : Reactor) (n : ℕ) : Standing → Prop
  | .absent => r.fds.accepted ≤ n
  | .awaiting => Waits r EPOLLIN n
  | .answering => Waits r EPOLLOUT n
  | .gone => n < r.fds.accepted ∧ ¬ Opened r n
  | .lost => Opened r n ∧ ∀ events, ¬ Waits r events n

structure Stands (r : Reactor) (s : Multiplexer) : Prop where
  entered : s.entered = r.fds.accepted
  standing : ∀ n, StandsAs r n (s.standing n)

inductive Served (r : Reactor) : Multiplexer.Event → Reactor → Prop
  | enrolled {fd : ℤ} {fds : Descriptors} {j : Slot} {log : List Action} :
      r.fds.accept fd = some fds → freeSlot r.Events = some j →
      Served r .enter (enroll { r with fds := fds, log := log } j fd)
  | leaked {fd : ℤ} {fds : Descriptors} {log : List Action} :
      r.fds.accept fd = some fds → freeSlot r.Events = none →
      Served r .enter { r with fds := fds, log := log }
  | asked {i : Slot} {n : ℕ} {log : List Action} : Holds r i n → (r.Events i).events = EPOLLIN →
      Served r (.request n) (rearm { r with log := log } i .sendData EPOLLOUT)
  | left {i : Slot} {n : ℕ} {log : List Action} : Holds r i n → (r.Events i).events = EPOLLIN →
      Served r (.leave n) (drop { r with log := log } i)
  | answered {i : Slot} {n : ℕ} {log : List Action} : Holds r i n →
      (r.Events i).events = EPOLLOUT →
      Served r (.answer n) (rearm { r with log := log } i .recvData EPOLLIN)

section Clients

lemma Waits.unique (h : Consistent lfd r) (hw : Waits r mask n) (hw' : Waits r events n) :
    mask = events := by
  obtain ⟨i, hi, rfl⟩ := hw
  obtain ⟨j, hj, rfl⟩ := hw'
  rw [hi.unique h hj]

lemma Waits.opened (hw : Waits r mask n) : Opened r n := by
  obtain ⟨i, hi, -⟩ := hw
  exact ⟨_, hi.file⟩

lemma Opened.lt (ho : Opened r n) : n < r.fds.accepted := by
  obtain ⟨fd, hf⟩ := ho
  exact r.fds.fresh fd n hf

lemma StandsAs.eq (h : Consistent lfd r) (ha : StandsAs r n a) (hb : StandsAs r n b) : a = b := by
  have hmask : Waits r EPOLLIN n → Waits r EPOLLOUT n → False := by
    intro hin hout
    exact absurd (hin.unique h hout) (by decide)
  have hin : Waits r EPOLLIN n → Opened r n := Waits.opened
  have hout : Waits r EPOLLOUT n → Opened r n := Waits.opened
  have hlt : Opened r n → n < r.fds.accepted := Opened.lt
  cases a with
  | absent | awaiting | answering | gone | lost =>
    cases b with
    | absent | awaiting | answering | gone | lost =>
      simp only [StandsAs] at ha hb
      grind

lemma waits_rearm (h : Consistent lfd r) (hi : Holds r i m) :
    Waits (rearm { r with log := log } i handler events) mask n ↔
      n = m ∧ mask = events ∨ n ≠ m ∧ Waits r mask n := by
  constructor
  · rintro ⟨j, hj, he⟩
    rw [holds_rearm] at hj
    by_cases hji : j = i
    · subst hji
      exact Or.inl ⟨hj.connection hi, by simpa [rearm] using he.symm⟩
    · refine Or.inr ⟨?_, j, hj, by simpa [rearm, hji] using he⟩
      rintro rfl
      exact hji (hj.unique h hi)
  · rintro (⟨rfl, rfl⟩ | ⟨hne, j, hj, he⟩)
    · exact ⟨i, holds_rearm.mpr hi, by simp [rearm]⟩
    · have hji : j ≠ i := by
        rintro rfl
        exact hne (hj.connection hi)
      exact ⟨j, holds_rearm.mpr hj, by simpa [rearm, hji] using he⟩

lemma waits_drop (h : Consistent lfd r) (hi : Holds r i m) :
    Waits (drop { r with log := log } i) mask n ↔ n ≠ m ∧ Waits r mask n := by
  constructor
  · rintro ⟨j, hj, he⟩
    obtain ⟨hji, hj⟩ := (holds_drop h hi.status).mp hj
    refine ⟨?_, j, hj, by simpa [drop, close, hji] using he⟩
    rintro rfl
    exact hji (hj.unique h hi)
  · rintro ⟨hne, j, hj, he⟩
    have hji : j ≠ i := by
      rintro rfl
      exact hne (hj.connection hi)
    exact ⟨j, (holds_drop h hi.status).mpr ⟨hji, hj⟩, by simpa [drop, close, hji] using he⟩

lemma waits_accept (h : Consistent lfd r) {fd : ℤ} (ha : r.fds.accept fd = some fds) :
    Waits { r with fds := fds, log := log } mask n ↔ Waits r mask n :=
  exists_congr fun _ => and_congr_left fun _ => holds_accept h ha

lemma waits_enroll (h : Consistent lfd r) {fd : ℤ} (ha : r.fds.accept fd = some fds)
    (hj : freeSlot r.Events = some j) :
    Waits (enroll { r with fds := fds, log := log } j fd) mask n ↔
      n = r.fds.accepted ∧ mask = EPOLLIN ∨ Waits r mask n := by
  obtain ⟨hjl, hjs⟩ := freeSlot_some hj
  have hf := Descriptors.accept_file_self ha
  constructor
  · rintro ⟨k, hk, he⟩
    rcases (holds_enroll hjl hf).mp hk with ⟨rfl, rfl⟩ | ⟨hkj, hk⟩
    · exact Or.inl ⟨rfl, by simpa [enroll] using he.symm⟩
    · exact Or.inr ⟨k, (holds_accept h ha).mp hk, by simpa [enroll, hkj] using he⟩
  · rintro (⟨rfl, rfl⟩ | ⟨k, hk, he⟩)
    · exact ⟨j, (holds_enroll hjl hf).mpr (Or.inl ⟨rfl, rfl⟩), by simp [enroll]⟩
    · have hkj : k ≠ j := by
        rintro rfl
        rw [hk.status] at hjs
        cases hjs
      refine ⟨k, (holds_enroll hjl hf).mpr (Or.inr ⟨hkj, ?_⟩), by simpa [enroll, hkj] using he⟩
      exact (holds_accept h ha).mpr hk

lemma opened_drop (hi : Holds r i m) :
    Opened (drop { r with log := log } i) n ↔ n ≠ m ∧ Opened r n := by
  have hfile : (drop { r with log := log } i).fds = r.fds.close (r.Events i).fd := by
    simp [drop, close]
  constructor
  · rintro ⟨fd, hf⟩
    rw [hfile] at hf
    have hne : fd ≠ (r.Events i).fd := by
      rintro rfl
      simp at hf
    rw [Descriptors.close_file_ne hne] at hf
    refine ⟨?_, fd, hf⟩
    rintro rfl
    exact hne (r.fds.single _ _ n hf hi.file)
  · rintro ⟨hnm, fd, hf⟩
    refine ⟨fd, ?_⟩
    have hne : fd ≠ (r.Events i).fd := by
      rintro rfl
      cases hf.symm.trans hi.file
      exact hnm rfl
    rw [hfile, Descriptors.close_file_ne hne, hf]

lemma opened_accept {fd : ℤ} (ha : r.fds.accept fd = some fds) :
    Opened { r with fds := fds, log := log } n ↔ n = r.fds.accepted ∨ Opened r n := by
  constructor
  · rintro ⟨a, hf⟩
    by_cases hfd : a = fd
    · subst hfd
      cases hf.symm.trans (Descriptors.accept_file_self ha)
      exact Or.inl rfl
    · exact Or.inr ⟨a, (Descriptors.accept_file_ne ha hfd).symm.trans hf⟩
  · rintro (rfl | ⟨a, hf⟩)
    · exact ⟨fd, Descriptors.accept_file_self ha⟩
    · exact ⟨a, Descriptors.accept_file_open ha hf⟩

end Clients

section Seats

def seats (r : Reactor) : Finset Slot :=
  Finset.univ.filter fun i => i ≠ listener ∧ (r.Events i).status = 1

lemma Stands.seated (h : Consistent lfd r) (hs : Stands r s) :
    n ∈ s.seated ↔ ∃ i, Holds r i n := by
  rw [Multiplexer.mem_seated]
  have hn := hs.standing n
  constructor
  · intro hseat
    cases ha : s.standing n with
    | awaiting | answering =>
      rw [ha] at hn
      obtain ⟨i, hi, -⟩ := hn
      exact ⟨i, hi⟩
    | absent | gone | lost =>
      rw [ha] at hseat
      cases hseat
  · rintro ⟨i, hi⟩
    rcases h.armed i hi.client hi.status with ⟨hev, -⟩ | ⟨hev, -⟩
    · rw [hn.eq h (b := .awaiting) ⟨i, hi, hev⟩]
      rfl
    · rw [hn.eq h (b := .answering) ⟨i, hi, hev⟩]
      rfl

lemma card_seats (h : Consistent lfd r) (hs : Stands r s) : (seats r).card = s.seated.card := by
  have hheld : ∀ i ∈ seats r, ∃ n, Holds r i n := by
    intro i hi
    obtain ⟨-, hil, his⟩ := Finset.mem_filter.mp hi
    exact h.holds hil his
  choose! f hf using hheld
  apply Finset.card_bij fun i _ => f i
  · exact fun i hi => (hs.seated h).mpr ⟨i, hf i hi⟩
  · intro i hi j hj hij
    have hfj := hf j hj
    rw [← hij] at hfj
    exact (hf i hi).unique h hfj
  · intro n hn
    obtain ⟨i, hi⟩ := (hs.seated h).mp hn
    have hmem : i ∈ seats r := Finset.mem_filter.mpr ⟨Finset.mem_univ i, hi.client, hi.status⟩
    exact ⟨i, hmem, (hf i hmem).connection hi⟩

lemma seated_lt_iff (h : Consistent lfd r) (hs : Stands r s) :
    s.seated.card < MAXEVENT ↔ Vacant r := by
  have hall : (Finset.univ.erase listener : Finset Slot).card = MAXEVENT := by
    rw [Finset.card_erase_of_mem (Finset.mem_univ _), Finset.card_univ, Fintype.card_fin]
    rfl
  have hsub : seats r ⊆ Finset.univ.erase listener := by
    intro i hi
    exact Finset.mem_erase.mpr ⟨(Finset.mem_filter.mp hi).2.1, Finset.mem_univ i⟩
  rw [← card_seats h hs, ← hall]
  constructor
  · intro hlt
    obtain ⟨i, hi, hni⟩ := Finset.exists_mem_notMem_of_card_lt_card hlt
    have hil := Finset.ne_of_mem_erase hi
    refine ⟨i, hil, (h.flag i).resolve_right fun hone => hni ?_⟩
    exact Finset.mem_filter.mpr ⟨Finset.mem_univ i, hil, hone⟩
  · rintro ⟨i, hil, hi⟩
    apply Finset.card_lt_card
    refine ⟨hsub, fun hle => ?_⟩
    have hmem := hle (Finset.mem_erase.mpr ⟨hil, Finset.mem_univ i⟩)
    have hone := (Finset.mem_filter.mp hmem).2.2
    omega

end Seats

section Steps

lemma Holds.peer_eq (hi : Holds r i n) : peer r i = some n := by
  simp only [peer, hi.file]

lemma callBack_served {result : Except String Reactor} (h : Consistent lfd r)
    (hs : (r.Events i).status = 1) (hcb : (r.Events i).call_back = some handler)
    (he : callBack r i handler ret = some result) :
    (∃ k r', occurred r i ret = some k ∧ result = .ok r' ∧ Served r k r') ∨
      occurred r i ret = none ∧ ∃ message, result = .error message := by
  have hreg : Registered r i := h.registers.registered hs
  rcases h.armed_handler hs hcb with ⟨-, -, rfl⟩ | ⟨hi, ⟨hev, rfl⟩ | ⟨hev, rfl⟩⟩
  · cases ret with
    | accept fd =>
      by_cases hfd : fd < 0
      · exact Or.inr ⟨if_pos hfd, _, acceptconnection_fails hfd he⟩
      · obtain ⟨fds, ha, hinst⟩ := acceptconnection_accepts (not_lt.mp hfd) he
        refine Or.inl ⟨.enter, ?_⟩
        cases hj : freeSlot r.Events with
        | none => exact ⟨_, if_neg hfd, hinst.trans (install_full hj), .leaked ha hj⟩
        | some j =>
          exact ⟨_, if_neg hfd, hinst.trans (install_free hj (h.not_interested ha)),
            .enrolled ha hj⟩
    | recv bytes | send len => cases he
  · obtain ⟨n, hn⟩ := h.holds hi hs
    cases ret with
    | recv bytes =>
      simp only [callBack, Option.ite_none_right_eq_some, Option.some.injEq] at he
      obtain ⟨-, rfl⟩ := he
      rcases recv_cases bytes with hclosed | ⟨b, bs, rfl⟩
      · refine Or.inl ⟨.leave n, _, ?_, recvData_closed hreg hclosed, .left hn hev⟩
        rcases hclosed with rfl | rfl <;> simp [occurred, hn.peer_eq]
      · exact Or.inl ⟨.request n, _, by simp [occurred, hn.peer_eq], recvData_data hreg b bs,
          .asked hn hev⟩
    | accept fd | send len => cases he
  · obtain ⟨n, hn⟩ := h.holds hi hs
    cases ret with
    | send len =>
      simp only [callBack, Option.ite_none_right_eq_some, Option.some.injEq] at he
      obtain ⟨-, rfl⟩ := he
      by_cases hl : 0 < len
      · exact Or.inl ⟨.answer n, _, by simp [occurred, hl, hn.peer_eq], sendData_sent hreg hl,
          .answered hn hev⟩
      · exact Or.inr ⟨if_neg hl, _, sendData_failed hreg hl⟩
    | accept fd | recv bytes => cases he

lemma rearm_standsAs (h : Consistent lfd r) (hi : Holds r i m) (hn : n ≠ m)
    (ha : StandsAs r n a) : StandsAs (rearm { r with log := log } i handler events) n a := by
  cases a with
  | absent | gone => exact ha
  | awaiting | answering => exact (waits_rearm h hi).mpr (Or.inr ⟨hn, ha⟩)
  | lost =>
    refine ⟨ha.1, fun mask hw => ?_⟩
    rcases (waits_rearm h hi).mp hw with ⟨hnm, -⟩ | ⟨-, hw⟩
    · exact hn hnm
    · exact ha.2 mask hw

lemma drop_standsAs (h : Consistent lfd r) (hi : Holds r i m) (hn : n ≠ m)
    (ha : StandsAs r n a) : StandsAs (drop { r with log := log } i) n a := by
  cases a with
  | absent => exact ha
  | awaiting | answering => exact (waits_drop h hi).mpr ⟨hn, ha⟩
  | gone => exact ⟨ha.1, fun ho => ha.2 ((opened_drop hi).mp ho).2⟩
  | lost =>
    exact ⟨(opened_drop hi).mpr ⟨hn, ha.1⟩, fun mask hw => ha.2 mask ((waits_drop h hi).mp hw).2⟩

lemma leak_standsAs (h : Consistent lfd r) {fd : ℤ} (hacc : r.fds.accept fd = some fds)
    (hn : n ≠ r.fds.accepted) (ha : StandsAs r n a) :
    StandsAs { r with fds := fds, log := log } n a := by
  have hnext := Descriptors.accept_accepted hacc
  cases a with
  | absent =>
    have hle : r.fds.accepted ≤ n := ha
    change fds.accepted ≤ n
    omega
  | awaiting | answering => exact (waits_accept h hacc).mpr ha
  | gone =>
    refine ⟨?_, fun ho => ?_⟩
    · have hlt : n < r.fds.accepted := ha.1
      change n < fds.accepted
      omega
    · exact ((opened_accept hacc).mp ho).elim hn ha.2
  | lost =>
    exact ⟨(opened_accept hacc).mpr (Or.inr ha.1), fun mask hw =>
      ha.2 mask ((waits_accept h hacc).mp hw)⟩

lemma enroll_standsAs (h : Consistent lfd r) {fd : ℤ} (hacc : r.fds.accept fd = some fds)
    (hj : freeSlot r.Events = some j) (hn : n ≠ r.fds.accepted) (ha : StandsAs r n a) :
    StandsAs (enroll { r with fds := fds, log := log } j fd) n a := by
  have hleak : StandsAs { r with fds := fds, log := log } n a := leak_standsAs h hacc hn ha
  cases a with
  | absent | gone => exact hleak
  | awaiting | answering => exact (waits_enroll h hacc hj).mpr (Or.inr ha)
  | lost =>
    refine ⟨hleak.1, fun mask hw => ?_⟩
    rcases (waits_enroll h hacc hj).mp hw with ⟨hnew, -⟩ | hw
    · exact hn hnew
    · exact ha.2 mask hw

lemma Stands.move {s' : Multiplexer} (hs : Stands r s) (hm : s.move m a b = some s')
    (hacc : r'.fds.accepted = r.fds.accepted) (hself : StandsAs r' m b)
    (hother : ∀ n c, n ≠ m → StandsAs r n c → StandsAs r' n c) : Stands r' s' := by
  obtain ⟨-, hent, hst⟩ := Multiplexer.move_eq_some.mp hm
  refine ⟨by rw [hent, hs.entered, hacc], fun n => ?_⟩
  by_cases hn : n = m
  · subst hn
    rwa [hst, Function.update_self]
  · rw [hst, Function.update_of_ne hn]
    exact hother n _ hn (hs.standing n)

lemma Stands.enter (hs : Stands r s) (hacc : r'.fds.accepted = r.fds.accepted + 1)
    (hself : StandsAs r' r.fds.accepted
      (if s.seated.card < MAXEVENT then .awaiting else .lost))
    (hother : ∀ n c, n ≠ r.fds.accepted → StandsAs r n c → StandsAs r' n c) :
    Stands r' (s.enter MAXEVENT) := by
  refine ⟨by rw [hacc, ← hs.entered]; rfl, fun n => ?_⟩
  by_cases hn : n = r.fds.accepted
  · subst hn
    simpa [Multiplexer.enter, hs.entered] using hself
  · have hst : (s.enter MAXEVENT).standing n = s.standing n :=
      Function.update_of_ne (by rwa [hs.entered]) _ _
    rw [hst]
    exact hother n _ hn (hs.standing n)

lemma Served.stands (h : Consistent lfd r) (hs : Stands r s) (hv : Served r k r') :
    ∃ s', Multiplexer.act MAXEVENT s k = some s' ∧ Stands r' s' := by
  cases hv with
  | @enrolled fd fds j log ha hj =>
    have hfree : s.seated.card < MAXEVENT := (seated_lt_iff h hs).mpr ⟨j, freeSlot_some hj⟩
    refine ⟨_, rfl, hs.enter (Descriptors.accept_accepted ha) ?_ fun n c hn =>
      enroll_standsAs h ha hj hn⟩
    rw [if_pos hfree]
    exact (waits_enroll h ha hj).mpr (Or.inl ⟨rfl, rfl⟩)
  | @leaked fd fds log ha hj =>
    have hfull : ¬ s.seated.card < MAXEVENT := by
      rw [seated_lt_iff h hs]
      exact fun hv => freeSlot_vacant hv hj
    refine ⟨_, rfl, hs.enter (Descriptors.accept_accepted ha) ?_ fun n c hn =>
      leak_standsAs h ha hn⟩
    rw [if_neg hfull]
    refine ⟨(opened_accept ha).mpr (Or.inl rfl), fun mask hw => ?_⟩
    exact lt_irrefl _ ((waits_accept h ha).mp hw).opened.lt
  | @asked i n log hi hev =>
    have hst : s.standing n = .awaiting :=
      (hs.standing n).eq h (b := .awaiting) ⟨i, hi, hev⟩
    obtain ⟨s', hm⟩ := Multiplexer.exists_move (b := .answering) (by decide) hst
    refine ⟨s', hm, hs.move hm rfl ?_ fun m c hm' => rearm_standsAs h hi hm'⟩
    exact (waits_rearm h hi).mpr (Or.inl ⟨rfl, rfl⟩)
  | @left i n log hi hev =>
    have hst : s.standing n = .awaiting :=
      (hs.standing n).eq h (b := .awaiting) ⟨i, hi, hev⟩
    obtain ⟨s', hm⟩ := Multiplexer.exists_move (b := .gone) (by decide) hst
    refine ⟨s', hm, hs.move hm rfl ?_ fun m c hm' => drop_standsAs h hi hm'⟩
    exact ⟨r.fds.fresh _ n hi.file, fun ho => ((opened_drop hi).mp ho).1 rfl⟩
  | @answered i n log hi hev =>
    have hst : s.standing n = .answering :=
      (hs.standing n).eq h (b := .answering) ⟨i, hi, hev⟩
    obtain ⟨s', hm⟩ := Multiplexer.exists_move (b := .awaiting) (by decide) hst
    refine ⟨s', hm, hs.move hm rfl ?_ fun m c hm' => rearm_standsAs h hi hm'⟩
    exact (waits_rearm h hi).mpr (Or.inl ⟨rfl, rfl⟩)

lemma observed_none {l : Label} (h : Sound lfd p) (he : step p l = some p')
    (hl : observed p l = none) : p'.reactor = p.reactor := by
  cases l with
  | test ret =>
    cases ret with
    | none => exact step_reactor (by simp) he
    | some ret =>
      obtain ⟨e, handler, hhead, hs, hcb, ⟨hres, -⟩ | ⟨message, -, hr, -⟩⟩ := test_called h he
      · rcases callBack_served h.consistent hs hcb hres with ⟨k, r', hk, -⟩ | ⟨-, _, hres'⟩
        · simp [observed, hhead, hk] at hl
        · cases hres'
      · exact hr
  | wait ready | waitFails | advance => exact step_reactor (by simp) he

lemma observed_some {l : Label} (h : Sound lfd p) (he : step p l = some p')
    (hl : observed p l = some k) : Served p.reactor k p'.reactor := by
  cases l with
  | test ret =>
    cases ret with
    | none => cases hl
    | some ret =>
      obtain ⟨e, handler, hhead, hs, hcb, hres⟩ := test_called h he
      have hk : occurred p.reactor e.ptr ret = some k := by simpa [observed, hhead] using hl
      rcases hres with ⟨hres, -⟩ | ⟨message, hres, -⟩
      · rcases callBack_served h.consistent hs hcb hres with ⟨k', r', hk', hr', hv⟩ | ⟨hk', -⟩
        · cases hk.symm.trans hk'
          cases hr'
          exact hv
        · rw [hk'] at hk
          cases hk
      · rcases callBack_served h.consistent hs hcb hres with ⟨k', r', -, hr', -⟩ | ⟨hk', -⟩
        · cases hr'
        · rw [hk'] at hk
          cases hk
  | wait ready | waitFails | advance => cases hl

lemma start_stands (lfd : ℤ) (inherited : Finset ℤ) :
    Stands (start lfd inherited).reactor .empty where
  entered := rfl
  standing n := Nat.zero_le n

lemma refines (lfd : ℤ) (inherited : Finset ℤ) :
    System.Simulates (system lfd inherited) (Multiplexer.system MAXEVENT) observed
      (fun _ k => some k) fun p s => Sound lfd p ∧ Stands p.reactor s where
  initial := by
    rintro _ rfl
    exact ⟨.empty, rfl, start_sound lfd inherited, start_stands lfd inherited⟩
  step := by
    rintro p l p' s ⟨h, hs⟩ he
    have hsound : Sound lfd p' := (sound_inductive lfd inherited).step p l p' h he
    cases hl : observed p l with
    | none =>
      refine ⟨s, ⟨hsound, ?_⟩, fun es => by simpa using System.Reaches.refl⟩
      rwa [observed_none h he hl]
    | some k =>
      obtain ⟨s', hk, hs'⟩ := (observed_some h he hl).stands h.consistent hs
      exact ⟨s', ⟨hsound, hs'⟩, fun es => System.journal_reaches hk⟩

end Steps

lemma Served.lost (h : Consistent lfd r) (hv : Served r k r') (hl : StandsAs r n .lost) :
    StandsAs r' n .lost := by
  have hheld : ∀ i m, Holds r i m → n ≠ m := by
    rintro i m hi rfl
    exact hl.2 _ ⟨i, hi, rfl⟩
  have hold : n ≠ r.fds.accepted := hl.1.lt.ne
  cases hv with
  | enrolled ha hj => exact enroll_standsAs h ha hj hold hl
  | leaked ha => exact leak_standsAs h ha hold hl
  | asked hi | answered hi => exact rearm_standsAs h hi (hheld _ _ hi) hl
  | left hi => exact drop_standsAs h hi (hheld _ _ hi) hl

lemma step_lost {l : Label} (h : Sound lfd p) (hl : StandsAs p.reactor n .lost)
    (he : step p l = some p') : StandsAs p'.reactor n .lost := by
  cases hk : observed p l with
  | none => rwa [observed_none h he hk]
  | some k => exact (observed_some h he hk).lost h.consistent hl

/-- What every connection has taken part in, up to any point of a run. A connection that is
lost stays lost. -/
theorem client_sessions (lfd : ℤ) (inherited : Finset ℤ) (p : Process)
    (es : List Multiplexer.Event) (h : (journal lfd inherited).Reachable (p, es)) (n : ℕ) :
    (∃ a, StandsAs p.reactor n a ∧ Multiplexer.Spoken n es a) ∧
    (StandsAs p.reactor n .lost → ∀ ls q, (journal lfd inherited).Run (p, es) ls q →
      StandsAs q.1.reactor n .lost) := by
  obtain ⟨s, hreach, hsound, hs⟩ := (refines lfd inherited).observed h
  obtain ⟨_, rfl, hrun⟩ := System.reachable_labels.mp hreach
  refine ⟨⟨s.standing n, hs.standing n, Multiplexer.run_spoken n hrun⟩, fun hl ls q hr => ?_⟩
  have hstep : ∀ q l q', (Sound lfd q.1 ∧ StandsAs q.1.reactor n .lost) →
      (journal lfd inherited).step q l = some q' →
      Sound lfd q'.1 ∧ StandsAs q'.1.reactor n .lost := by
    rintro q l q' ⟨hq, hlost⟩ he
    have he' := (System.journal_step.mp he).1
    exact ⟨(sound_inductive lfd inherited).step _ l _ hq he', step_lost hq hlost he'⟩
  exact (hr.keeps hstep ⟨hsound, hl⟩).2

theorem client_sessions_accepted : ∃ p, (journal 3 {0, 1, 2, 4}).Reachable (p, [.enter]) ∧
    ∃ a, StandsAs p.reactor 0 a ∧ Multiplexer.Spoken 0 [.enter] a := by
  have hrun : ((journal 3 {0, 1, 2, 4}).exec (start 3 {0, 1, 2, 4}, [])
      (round 3 EPOLLIN (some (.accept 5)) none)).map (fun q => q.2) = some [.enter] := rfl
  have h₀ : (journal 3 {0, 1, 2, 4}).initial (start 3 {0, 1, 2, 4}, []) := ⟨rfl, rfl⟩
  obtain ⟨⟨p, es⟩, hp, hes⟩ := System.Reachable.observe h₀ hrun
  obtain rfl : es = [.enter] := hes
  exact ⟨p, hp, (client_sessions 3 {0, 1, 2, 4} p [.enter] hp 0).1⟩

end UnixProgramming.EpollReactor
