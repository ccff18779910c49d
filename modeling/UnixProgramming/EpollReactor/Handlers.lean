import UnixProgramming.EpollReactor.Model
import Mathlib.Tactic

/-! What each call-back does to the table and to the epoll set. -/

namespace UnixProgramming.EpollReactor

open Library Library.Transition

variable {r r' : Reactor} {i j : Slot} {lfd ret : ℤ} {handler : CallBack}

-- The three changes that the call-backs make to one slot.
def rearm (r : Reactor) (i : Slot) (handler : CallBack) (events : Mask) : Reactor :=
  (r.put i { r.Events i with events := events, call_back := some handler }).watch (r.Events i).fd
    (some (i, events))

def drop (r : Reactor) (i : Slot) : Reactor :=
  close (r.put i { r.Events i with status := 0 }) (r.Events i).fd

def enroll (r : Reactor) (i : Slot) (fd : ℤ) : Reactor :=
  (r.put i ⟨fd, EPOLLIN, some i, 1, some .recvData⟩).watch fd (some (i, EPOLLIN))

structure Registered (r : Reactor) (i : Slot) : Prop where
  status : (r.Events i).status = 1
  entry : ∃ entry, r.interest (r.Events i).fd = some entry

lemma Registered.record (h : Registered r i) (a : Action) : Registered (r.record a) i :=
  ⟨h.status, h.entry⟩

lemma eventdel_registered (h : Registered r i) :
    eventdel r i = .ok ((r.put i { r.Events i with status := 0 }).watch (r.Events i).fd none) := by
  obtain ⟨hs, entry, he⟩ := h
  simp [eventdel, epoll_ctl, hs, he]

lemma eventdel_free (h : (r.Events i).status = 0) :
    eventdel r i = .error "event_del() : epoll_ctl()" := by
  cases he : r.interest (r.Events i).fd <;> simp [eventdel, epoll_ctl, h, he]

lemma eventadd_free (h : (r.Events i).status = 0) (he : r.interest (r.Events i).fd = none) :
    eventadd r i = .ok ((r.put i { r.Events i with status := 1 }).watch (r.Events i).fd
      (some (i, (r.Events i).events))) := by
  simp [eventadd, epoll_ctl, h, he]

lemma recvData_data (h : Registered r i) (b : UInt8) (bs : List UInt8) :
    recvData r i (some (b :: bs)) =
      .ok (rearm ((r.record (.recv (r.Events i).fd)).record (.print (received (b :: bs)))) i
        .sendData EPOLLOUT) := by
  simp only [recvData, eventdel_registered (h.record _), bind, Except.bind]
  rw [eventadd_free (by simp) (by simp)]
  simp [rearm, Reactor.put, Reactor.watch, Reactor.record, h.status]

lemma recvData_closed (h : Registered r i) {bytes : Option (List UInt8)}
    (hb : bytes = none ∨ bytes = some []) :
    recvData r i bytes = .ok (drop (r.record (.recv (r.Events i).fd)) i) := by
  rcases hb with rfl | rfl <;>
    · simp only [recvData, eventdel_registered (h.record _), bind, Except.bind]
      simp [drop, close, Reactor.put, Reactor.watch, Reactor.record]

lemma recv_cases (bytes : Option (List UInt8)) :
    (bytes = none ∨ bytes = some []) ∨ ∃ b bs, bytes = some (b :: bs) := by
  cases bytes with
  | none => exact Or.inl (Or.inl rfl)
  | some bytes =>
    cases bytes with
    | nil => exact Or.inl (Or.inr rfl)
    | cons b bs => exact Or.inr ⟨b, bs, rfl⟩

lemma sendData_sent (h : Registered r i) {len : ℤ} (hl : 0 < len) :
    sendData r i len = .ok (rearm (r.record (.send (r.Events i).fd)) i .recvData EPOLLIN) := by
  simp only [sendData, eventdel_registered (h.record _), bind, Except.bind, if_pos hl]
  rw [eventadd_free (by simp) (by simp)]
  simp [rearm, Reactor.put, Reactor.watch, Reactor.record, h.status]

lemma sendData_failed (h : Registered r i) {len : ℤ} (hl : ¬ 0 < len) :
    sendData r i len = .error "event_del() : epoll_ctl()" := by
  simp only [sendData, eventdel_registered (h.record _), bind, Except.bind, if_neg hl]
  rw [eventdel_free (by simp)]

lemma scan_some {Events : Slot → Event} {n : ℕ} (hn : n ≤ MAXEVENT) (h : scan Events n = some i) :
    i ≠ listener ∧ (Events i).status = 0 := by
  induction n with
  | zero => cases h
  | succ n ih =>
    simp only [scan] at h
    split_ifs at h with hs
    · obtain rfl := Option.some.inj h
      refine ⟨fun hl => ?_, hs⟩
      have hv := congrArg Fin.val hl
      simp only [listener, Fin.val_last] at hv
      omega
    · exact ih (by omega) h

lemma scan_none {Events : Slot → Event} {n : ℕ} (h : scan Events n = none) (hi : i ≠ listener)
    (hn : MAXEVENT - n ≤ i) : (Events i).status ≠ 0 := by
  induction n with
  | zero =>
    have hlt : i.val < MAXEVENT := Fin.val_lt_last hi
    omega
  | succ n ih =>
    simp only [scan] at h
    split_ifs at h with hs
    by_cases hv : i.val = MAXEVENT - (n + 1)
    · rwa [← show i = ⟨MAXEVENT - (n + 1), by omega⟩ from Fin.ext hv] at hs
    · exact ih h (by omega)

lemma freeSlot_some (h : freeSlot r.Events = some i) : i ≠ listener ∧ (r.Events i).status = 0 :=
  scan_some le_rfl h

lemma freeSlot_none (h : freeSlot r.Events = none) (hi : i ≠ listener) :
    (r.Events i).status ≠ 0 :=
  scan_none h hi (by omega)

lemma install_full {fd : ℤ} (h : freeSlot r.Events = none) : install r fd = .ok r := by
  simp only [install, h]

lemma install_free {fd : ℤ} (h : freeSlot r.Events = some i) (he : r.interest fd = none) :
    install r fd = .ok (enroll r i fd) := by
  simp only [install, h]
  rw [eventadd_free (by simp [setevent]) (by simpa [setevent] using he)]
  simp [setevent, enroll, bind, Except.bind, Reactor.put, Reactor.watch]

lemma accept_succeeds (hr : 0 ≤ ret) (h : accept r lfd ret = some r') :
    ∃ fds, r.fds.accept ret = some fds ∧ r' = { r.record (.accept ret) with fds := fds } := by
  simp only [accept, if_neg hr.not_gt, Option.ite_none_right_eq_some] at h
  obtain ⟨-, h⟩ := h
  obtain ⟨fds, hf, rfl⟩ := Option.map_eq_some_iff.mp h
  exact ⟨fds, hf, rfl⟩

lemma acceptconnection_fails {result : Except String Reactor} (hr : ret < 0)
    (h : acceptconnection r i ret = some result) : result = .error "accept()" := by
  obtain ⟨_, -, rfl⟩ := Option.map_eq_some_iff.mp h
  rw [if_pos hr]

lemma acceptconnection_accepts {result : Except String Reactor} (hr : 0 ≤ ret)
    (h : acceptconnection r i ret = some result) :
    ∃ fds, r.fds.accept ret = some fds ∧
      result = install { r.record (.accept ret) with fds := fds } ret := by
  obtain ⟨r', ha, rfl⟩ := Option.map_eq_some_iff.mp h
  obtain ⟨fds, hf, rfl⟩ := accept_succeeds hr ha
  exact ⟨fds, hf, if_neg hr.not_gt⟩

end UnixProgramming.EpollReactor
