import UnixProgramming.EpollReactor.Loop

/-! What a failing client does to the rest of the reactor. -/

namespace UnixProgramming.EpollReactor

open Library Library.Transition

variable {r r' : Reactor} {i : Slot} {ret : Returned} {result : Except String Reactor}

def Returned.fails : Returned → Bool
  | .recv (some (_ :: _)) | .accept _ => false
  | .recv (some []) | .recv none => true
  | .send len => len ≤ 0

def Returned.failsToSend : Returned → Bool
  | .send len => len ≤ 0
  | .recv _ | .accept _ => false

structure Cleaned (r : Reactor) (i : Slot) (r' : Reactor) : Prop where
  status : (r'.Events i).status = 0
  entry : r'.interest (r.Events i).fd = none
  closed : r'.fds.file (r.Events i).fd = none
  once : r'.log.count (.close (r.Events i).fd) = r.log.count (.close (r.Events i).fd) + 1
  slots : ∀ j, j ≠ i → r'.Events j = r.Events j
  entries : ∀ fd, fd ≠ (r.Events i).fd → r'.interest fd = r.interest fd

def Isolated (r : Reactor) (i : Slot) (ret : Returned) (result : Except String Reactor) : Prop :=
  ∃ r', result = .ok r' ∧ (ret.fails = true → Cleaned r i r')

lemma drop_cleaned {a : Action} (ha : a ≠ .close (r.Events i).fd) :
    Cleaned r i (drop (r.record a) i) where
  status := by simp [drop, close]
  entry := by simp [drop, close]
  closed := by simp [drop, close]
  once := by simp [drop, close, List.count_append, ha]
  slots j hj := by simp [drop, close, hj]
  entries fd hfd := by simp [drop, close, hfd]

lemma recvData_isolated (h : Registered r i) (bytes : Option (List UInt8)) :
    Isolated r i (.recv bytes) (recvData r i bytes) := by
  rcases recv_cases bytes with hclosed | ⟨b, bs, rfl⟩
  · rw [recvData_closed h hclosed]
    exact ⟨_, rfl, fun _ => drop_cleaned (by simp)⟩
  · rw [recvData_data h]
    exact ⟨_, rfl, fun hf => by cases hf⟩

lemma sendData_isolated_iff (h : Registered r i) (len : ℤ) :
    Isolated r i (.send len) (sendData r i len) ↔ 0 < len := by
  constructor
  · rintro ⟨r', hok, -⟩
    by_contra hl
    rw [sendData_failed h hl] at hok
    cases hok
  · intro hl
    rw [sendData_sent h hl]
    refine ⟨_, rfl, fun hf => ?_⟩
    simp only [Returned.fails, decide_eq_true_eq] at hf
    omega

theorem isolated_iff (lfd : ℤ) (inherited : Finset ℤ) (p : Process)
    (h : (system lfd inherited).Reachable p) (i : Slot) (hi : i ≠ listener)
    (hs : (p.reactor.Events i).status = 1) (handler : CallBack)
    (hcb : (p.reactor.Events i).call_back = some handler) (ret : Returned)
    (result : Except String Reactor) (hr : callBack p.reactor i handler ret = some result) :
    Isolated p.reactor i ret result ↔ ret.failsToSend = false := by
  have hc : Consistent lfd p.reactor := ((sound_inductive lfd inherited).reachable h).consistent
  have hreg : Registered p.reactor i := hc.registers.registered hs
  rcases hc.armed_handler hs hcb with ⟨hl, -⟩ | ⟨-, ⟨-, rfl⟩ | ⟨-, rfl⟩⟩
  · exact absurd hl hi
  · cases ret with
    | recv bytes =>
      simp only [callBack, Option.ite_none_right_eq_some, Option.some.injEq] at hr
      obtain ⟨-, rfl⟩ := hr
      exact ⟨fun _ => rfl, fun _ => recvData_isolated hreg bytes⟩
    | accept ret | send len => cases hr
  · cases ret with
    | send len =>
      simp only [callBack, Option.ite_none_right_eq_some, Option.some.injEq] at hr
      obtain ⟨-, rfl⟩ := hr
      rw [sendData_isolated_iff hreg]
      simp [Returned.failsToSend]
    | accept ret | recv bytes => cases hr

theorem isolated_iff_disconnected : ∃ p result, (system 3 {0, 1, 2, 4}).Reachable p ∧
    callBack p.reactor 0 .recvData (.recv (some [])) = some result ∧
    (Isolated p.reactor 0 (.recv (some [])) result ↔
      (Returned.recv (some [])).failsToSend = false) := by
  have hrun : ((system 3 {0, 1, 2, 4}).exec (start 3 {0, 1, 2, 4})
      (round 3 EPOLLIN (some (.accept 5)) none)).map
      (fun p => ((p.reactor.Events 0).status, (p.reactor.Events 0).call_back)) =
        some (1, some .recvData) := rfl
  obtain ⟨p, hp, he⟩ := System.Reachable.observe rfl hrun
  obtain ⟨hs, hcb⟩ : _ ∧ _ := by simpa only [Prod.mk.injEq] using he
  have hr : callBack p.reactor 0 .recvData (.recv (some [])) =
      some (recvData p.reactor 0 (some [])) := rfl
  exact ⟨p, _, hp, hr, isolated_iff 3 {0, 1, 2, 4} p hp 0 (by decide) hs _ hcb _ _ hr⟩

/-- A client sends one byte and is gone when the reactor answers: its second
`eventdel` ends the process. -/
theorem send_failure_exits : ∃ p, (system 3 {0, 1, 2, 4}).Reachable p ∧
    (p.reactor.Events 0).status = 1 ∧ (p.reactor.Events 0).call_back = some .sendData ∧
    callBack p.reactor 0 .sendData (.send (-1)) = some (.error "event_del() : epoll_ctl()") ∧
    ¬ Isolated p.reactor 0 (.send (-1)) (.error "event_del() : epoll_ctl()") := by
  have hrun : ((system 3 {0, 1, 2, 4}).exec (start 3 {0, 1, 2, 4})
      (round 3 EPOLLIN (some (.accept 5)) none ++
        round 5 EPOLLIN (some (.recv (some [65]))) none)).map
      (fun p => ((p.reactor.Events 0).status, (p.reactor.Events 0).call_back)) =
        some (1, some .sendData) := rfl
  obtain ⟨p, hp, he⟩ := System.Reachable.observe rfl hrun
  obtain ⟨hs, hcb⟩ : _ ∧ _ := by simpa only [Prod.mk.injEq] using he
  have hc := ((sound_inductive 3 {0, 1, 2, 4}).reachable hp).consistent
  have hfail : sendData p.reactor 0 (-1) = .error "event_del() : epoll_ctl()" :=
    sendData_failed (hc.registers.registered hs) (by decide)
  refine ⟨p, hp, hs, hcb, congrArg some hfail, ?_⟩
  rintro ⟨_, hok, -⟩
  cases hok

end UnixProgramming.EpollReactor
