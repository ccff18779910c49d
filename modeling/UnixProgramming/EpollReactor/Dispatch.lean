import UnixProgramming.EpollReactor.Orphans

/-! The entries of a batch that `main` passes without a call. -/

namespace UnixProgramming.EpollReactor

open Library Library.Transition

/-- The one call since `main` has come to the first entry is for the slot of `e`. -/
def Handled (p : Process) (e : Reported) : Prop :=
  ∃ c, p.calls = [c] ∧ c.slot = e.ptr

structure Consumed (p : Process) : Prop where
  passed : p.phase = .advance → ∀ e, p.queue.head? = some e → e.events ≠ 0 → Handled p e
  ended : p.exit.isSome → ∀ e ∈ p.queue, e.events ≠ 0 → Handled p e

def Returned.fatal : Returned → Bool
  | .accept ret => ret < 0
  | .send len => len ≤ 0
  | .recv _ => false

/-- The entry reports more than an error or a hang-up, and a call that ends the process is
for the last one. -/
structure Dispatched (p : Process) (l : Label) : Prop where
  ready : ∀ ret e, l = .test ret → p.phase = .writable → p.queue.head? = some e →
    e.events ≠ 0 → has e.events EPOLLIN ∨ has e.events EPOLLOUT
  last : ∀ ret, l = .test (some ret) → ret.fatal → ∀ e ∈ p.queue.tail, e.events = 0

structure Processed (lfd : ℤ) (p : Process) : Prop where
  sound : Sound lfd p
  idle : p.phase = .wait → p.queue = []
  read : p.phase = .writable → ∀ e, p.queue.head? = some e → has e.events EPOLLIN → Handled p e
  consumed : Consumed p

variable {r : Reactor} {p p' : Process} {e : Reported} {lfd : ℤ} {l : Label} {ret : Returned}
  {i : Slot} {handler : CallBack}

lemma Consistent.mask (h : Consistent lfd r) (hs : (r.Events i).status = 1) :
    (r.Events i).events = EPOLLIN ∨ (r.Events i).events = EPOLLOUT := by
  by_cases hi : i = listener
  · subst hi
    rw [h.listening]
    exact .inl rfl
  · rcases h.armed i hi hs with ⟨he, -⟩ | ⟨he, -⟩
    · exact .inl he
    · exact .inr he

lemma not_reported_in {mask : Mask}
    (h : mask &&& ~~~(EPOLLOUT ||| EPOLLERR ||| EPOLLHUP) = 0) : has mask EPOLLIN = false := by
  have hin : EPOLLIN = ~~~(EPOLLOUT ||| EPOLLERR ||| EPOLLHUP) &&& EPOLLIN := by decide
  have hzero : mask &&& EPOLLIN = 0 := by
    rw [hin, ← BitVec.and_assoc, h]
    exact BitVec.zero_and
  simp [has, hzero]

lemma Pending.registered_in (h : Consistent lfd r) (hp : Pending r e)
    (he : has e.events EPOLLIN = true) : has (r.Events e.ptr).events EPOLLIN = true := by
  have hmask := hp.events
  rcases h.mask hp.status with hev | hev
  · rw [hev]
    decide
  · rw [hev] at hmask
    rw [not_reported_in hmask] at he
    cases he

lemma Pending.registered_out (h : Consistent lfd r) (hp : Pending r e)
    (he : has e.events EPOLLOUT = true) : has (r.Events e.ptr).events EPOLLOUT = true := by
  have hmask := hp.events
  rcases h.mask hp.status with hev | hev
  · rw [hev] at hmask
    rw [not_reported_out hmask] at he
    cases he
  · rw [hev]
    decide

lemma Pending.called (h : Consistent lfd r) (hp : Pending r e) :
    (r.Events e.ptr).call_back ≠ none := by
  by_cases hi : e.ptr = listener
  · rw [hi, h.listening]
    exact Option.some_ne_none _
  · rcases h.armed e.ptr hi hp.status with ⟨-, hc⟩ | ⟨-, hc⟩
    · rw [hc]
      exact Option.some_ne_none _
    · rw [hc]
      exact Option.some_ne_none _

lemma testStep_skips {bit : Mask} {next : Phase} (hq : p.queue.head? = some e)
    (hc : has e.events bit = true → has (p.reactor.Events e.ptr).events bit = true ∧
      (p.reactor.Events e.ptr).call_back ≠ none)
    (he : testStep p bit next none = some p') :
    has e.events bit = false ∧ p' = { p with phase := next } := by
  obtain ⟨a, rest, hqueue, -⟩ := testStep_cases he
  rw [hqueue, List.head?_cons, Option.some.injEq] at hq
  subst hq
  simp only [testStep, hqueue, testEvent] at he
  by_cases hbit : has a.events bit = true
  · obtain ⟨hreg, hcb⟩ := hc hbit
    rw [if_pos ⟨hreg, hbit⟩] at he
    obtain ⟨handler, hsome⟩ := Option.ne_none_iff_exists'.mp hcb
    simp [hsome] at he
  · rw [if_neg fun h => hbit h.2, if_true, Option.some.injEq] at he
    refine ⟨Bool.eq_false_of_not_eq_true hbit, ?_⟩
    rw [← he, hqueue]

lemma test_skipped (h : Sound lfd p) (he : step p (.test none) = some p') :
    ∃ e, p.queue.head? = some e ∧
      (p.phase = .readable ∧ has e.events EPOLLIN = false ∧ p' = { p with phase := .writable } ∨
        p.phase = .writable ∧ has e.events EPOLLOUT = false ∧
          p' = { p with phase := .advance }) := by
  obtain ⟨e, bit, next, hhead, ⟨hph, rfl, rfl⟩ | ⟨hph, rfl, rfl⟩, hp, ht, -⟩ := test_cases h he
  · refine ⟨e, hhead, .inl ⟨hph, testStep_skips hhead (fun hin => ?_) ht⟩⟩
    have hpending := (hp hin).2
    exact ⟨hpending.registered_in h.consistent hin, hpending.called h.consistent⟩
  · refine ⟨e, hhead, .inr ⟨hph, testStep_skips hhead (fun hout => ?_) ht⟩⟩
    have hpending := (hp hout).2
    exact ⟨hpending.registered_out h.consistent hout, hpending.called h.consistent⟩

lemma Tested.handled {bit : Mask} {next : Phase} (ht : Tested p e bit next (some ret) p')
    (hx : p.exit = none) (hnil : has e.events bit = true → p.calls = []) :
    has e.events bit = true ∧ Handled p' e ∧ p'.queue = p.queue ∧
      (p'.exit = none ∧ p'.phase = next ∨ p'.exit.isSome ∧ p'.phase = p.phase) := by
  cases ht with
  | @returns handler _ r hreg hb hcb hres =>
    have hcalls := hnil hb
    refine ⟨hb, ⟨⟨handler, e.ptr, p.reactor.fds.file (p.reactor.Events e.ptr).fd⟩, ?_, rfl⟩, rfl,
      .inl ⟨hx, rfl⟩⟩
    simp only [hcalls, List.nil_append]
  | @exits handler _ message hreg hb hcb hres =>
    have hcalls := hnil hb
    refine ⟨hb, ⟨⟨handler, e.ptr, p.reactor.fds.file (p.reactor.Events e.ptr).fd⟩, ?_, rfl⟩, rfl,
      .inr ⟨rfl, rfl⟩⟩
    simp only [hcalls, List.nil_append]

lemma test_handled (h : Sound lfd p) (he : step p (.test (some ret)) = some p') :
    ∃ e, p.queue.head? = some e ∧ Handled p' e ∧ p'.queue = p.queue ∧
      (p.phase = .readable ∧ has e.events EPOLLIN = true ∧
          (p'.exit = none ∧ p'.phase = .writable ∨ p'.exit.isSome ∧ p'.phase = p.phase) ∨
        p.phase = .writable ∧ has e.events EPOLLOUT = true ∧
          (p'.exit = none ∧ p'.phase = .advance ∨ p'.exit.isSome ∧ p'.phase = p.phase)) := by
  obtain ⟨e, bit, next, hhead, hph, hp, -, ht⟩ := test_cases h he
  obtain ⟨hb, hc, hqueue, hend⟩ := ht.handled (step_exit he) fun hb => (hp hb).1
  refine ⟨e, hhead, hc, hqueue, ?_⟩
  rcases hph with ⟨hph, rfl, rfl⟩ | ⟨hph, rfl, rfl⟩
  · exact .inl ⟨hph, hb, hend⟩
  · exact .inr ⟨hph, hb, hend⟩

lemma accept_fatal {ret : ℤ} {result : Except String Reactor} (h : Consistent lfd r)
    (he : acceptconnection r i ret = some result) :
    ret < 0 ∧ (∃ message, result = .error message) ∨ ¬ ret < 0 ∧ ∃ r', result = .ok r' := by
  by_cases hr : ret < 0
  · exact .inl ⟨hr, _, acceptconnection_fails hr he⟩
  · obtain ⟨fds, ha, rfl⟩ := acceptconnection_accepts (not_lt.mp hr) he
    refine .inr ⟨hr, ?_⟩
    cases hj : freeSlot r.Events with
    | none => exact ⟨_, install_full hj⟩
    | some j => exact ⟨_, install_free hj (h.not_interested ha)⟩

lemma callBack_fatal {result : Except String Reactor} (h : Consistent lfd r)
    (hs : (r.Events i).status = 1) (hcb : (r.Events i).call_back = some handler)
    (he : callBack r i handler ret = some result) :
    ret.fatal = true ∧ (∃ message, result = .error message) ∨
      ret.fatal = false ∧ ∃ r', result = .ok r' := by
  have hreg : Registered r i := h.registers.registered hs
  rcases h.armed_handler hs hcb with ⟨-, -, rfl⟩ | ⟨-, ⟨-, rfl⟩ | ⟨-, rfl⟩⟩
  · cases ret with
    | accept ret => simpa [Returned.fatal] using accept_fatal h he
    | recv bytes | send len => cases he
  · cases ret with
    | recv bytes =>
      simp only [callBack, Option.ite_none_right_eq_some, Option.some.injEq] at he
      obtain ⟨-, rfl⟩ := he
      rcases recv_cases bytes with hclosed | ⟨b, bs, rfl⟩
      · exact .inr ⟨rfl, _, recvData_closed hreg hclosed⟩
      · exact .inr ⟨rfl, _, recvData_data hreg b bs⟩
    | accept ret | send len => cases he
  · cases ret with
    | send len =>
      simp only [callBack, Option.ite_none_right_eq_some, Option.some.injEq] at he
      obtain ⟨-, rfl⟩ := he
      by_cases hl : 0 < len
      · exact .inr ⟨by simpa [Returned.fatal] using hl, _, sendData_sent hreg hl⟩
      · exact .inl ⟨by simpa [Returned.fatal] using hl, _, sendData_failed hreg hl⟩
    | accept ret | recv bytes => cases he

lemma fatal_iff (h : Sound lfd p) (he : step p (.test (some ret)) = some p') :
    ret.fatal = true ↔ p'.exit.isSome := by
  obtain ⟨e, handler, -, hs, hcb, ⟨hres, hx⟩ | ⟨message, hres, -, hx⟩⟩ := test_called h he
  · rcases callBack_fatal h.consistent hs hcb hres with ⟨-, _, hr⟩ | ⟨hf, -⟩
    · cases hr
    · simp [hf, hx]
  · rcases callBack_fatal h.consistent hs hcb hres with ⟨hf, -⟩ | ⟨-, _, hr⟩
    · simp [hf, hx]
    · cases hr

lemma start_processed (lfd : ℤ) (inherited : Finset ℤ) : Processed lfd (start lfd inherited) where
  sound := start_sound lfd inherited
  idle _ := rfl
  read hp := by cases hp
  consumed := ⟨(fun hp => by cases hp), (fun hx => by cases hx)⟩

lemma skip_processed (h : Processed lfd p) (hg : Dispatched p (.test none))
    (he : step p (.test none) = some p') (hs : Sound lfd p') : Processed lfd p' := by
  have hx := step_exit he
  obtain ⟨e, hhead, ⟨hph, hin, rfl⟩ | ⟨hph, hout, rfl⟩⟩ := test_skipped h.sound he
  · refine ⟨hs, (fun hp => by cases hp), fun _ a ha hb => ?_,
      ⟨(fun hp => by cases hp), fun hn => ?_⟩⟩
    · obtain rfl := Option.some.inj (hhead.symm.trans ha)
      rw [hin] at hb
      cases hb
    · simp [hx] at hn
  · refine ⟨hs, (fun hp => by cases hp), (fun hp => by cases hp),
      ⟨fun _ a ha hne => ?_, fun hn => ?_⟩⟩
    · obtain rfl := Option.some.inj (hhead.symm.trans ha)
      have hin := (hg.ready none e rfl hph hhead hne).resolve_right (by simp [hout])
      exact h.read hph e hhead hin
    · simp [hx] at hn

lemma call_processed (h : Processed lfd p) (hg : Dispatched p (.test (some ret)))
    (he : step p (.test (some ret)) = some p') (hs : Sound lfd p') : Processed lfd p' := by
  obtain ⟨e, hhead, hc, hqueue, hend⟩ := test_handled h.sound he
  have hbusy : p'.phase ≠ .wait := by
    rcases hend with ⟨hph, -, ⟨-, hn⟩ | ⟨-, hn⟩⟩ | ⟨hph, -, ⟨-, hn⟩ | ⟨-, hn⟩⟩ <;>
      simp [hn, hph]
  have hfirst : ∀ a, p'.queue.head? = some a → Handled p' a := by
    intro a ha
    rw [hqueue, hhead] at ha
    exact Option.some.inj ha ▸ hc
  refine ⟨hs, fun hp => absurd hp hbusy, fun _ a ha _ => hfirst a ha,
    ⟨fun _ a ha _ => hfirst a ha, fun hx a ha hne => ?_⟩⟩
  obtain ⟨rest, hq⟩ : ∃ rest, p.queue = e :: rest := List.head?_eq_some_iff.mp hhead
  rw [hqueue, hq, List.mem_cons] at ha
  rcases ha with rfl | ha
  · exact hc
  · have hlast := hg.last ret rfl ((fatal_iff h.sound he).mpr hx) a (by rwa [hq])
    exact absurd hlast hne

lemma step_processed (h : Processed lfd p) (hg : Dispatched p l) (he : step p l = some p') :
    Processed lfd p' := by
  have hs : Sound lfd p' := (sound_inductive lfd ∅).step p l p' h.sound he
  cases l with
  | test ret =>
    cases ret with
    | none => exact skip_processed h hg he hs
    | some ret => exact call_processed h hg he hs
  | wait ready =>
    have hx := step_exit he
    simp only [step, hx, Option.isSome_none, Bool.false_eq_true, if_false, waitStep,
      Option.ite_none_right_eq_some, Option.some.injEq] at he
    obtain ⟨-, rfl⟩ := he
    by_cases hnil : ready = []
    · subst hnil
      exact ⟨hs, fun _ => rfl, (fun hp => by cases hp), ⟨(fun hp => by cases hp),
        fun hn => by simp at hn⟩⟩
    · refine ⟨hs, fun hp => ?_, fun hp => ?_, ⟨fun hp => ?_, fun hn => by simp at hn⟩⟩ <;>
        simp [hnil] at hp
  | waitFails =>
    have hx := step_exit he
    obtain ⟨hph, rfl⟩ : p.phase = .wait ∧ { p with exit := some "epoll_wait()" } = p' := by
      simpa [step, hx] using he
    have hnil := h.idle hph
    refine ⟨hs, fun _ => hnil, fun hp => ?_, ⟨fun hp => ?_, fun _ e hmem => ?_⟩⟩
    · simp [hph] at hp
    · simp [hph] at hp
    · simp [hnil] at hmem
  | advance =>
    have hx := step_exit he
    simp only [step, hx, Option.isSome_none, Bool.false_eq_true, if_false, advanceStep,
      Option.ite_none_right_eq_some, Option.some.injEq] at he
    obtain ⟨-, rfl⟩ := he
    by_cases hnil : p.queue.tail = []
    · refine ⟨hs, fun _ => hnil, fun hp => ?_, ⟨fun hp => ?_, fun hn => by simp at hn⟩⟩ <;>
        simp [hnil] at hp
    · refine ⟨hs, fun hp => ?_, fun hp => ?_, ⟨fun hp => ?_, fun hn => by simp at hn⟩⟩ <;>
        simp [hnil] at hp

lemma Handled.reported (h : Sound lfd p) (hhead : p.queue.head? = some e) (hc : Handled p e) :
    has e.events EPOLLIN = true ∨ has e.events EPOLLOUT = true := by
  obtain ⟨c, hcalls, -⟩ := hc
  have hm := (h.once e hhead).2 c (by simp [hcalls])
  by_cases hs : c.handler = .sendData
  · exact .inr (hm.writable hs)
  · exact .inl (hm.readable hs)

lemma step_unconsumed (h : Processed lfd p) (hg : ¬ Dispatched p l) (he : step p l = some p') :
    ¬ Consumed p' := by
  intro hc
  apply hg
  constructor
  · rintro ret e rfl hph hhead hne
    cases ret with
    | some ret =>
      obtain ⟨e', hhead', -, -, ⟨hph', -⟩ | ⟨-, hout, -⟩⟩ := test_handled h.sound he
      · simp [hph] at hph'
      · rw [hhead, Option.some.injEq] at hhead'
        exact .inr (hhead' ▸ hout)
    | none =>
      obtain ⟨e', hhead', ⟨hph', -⟩ | ⟨-, -, rfl⟩⟩ := test_skipped h.sound he
      · simp [hph] at hph'
      · exact Handled.reported h.sound hhead (hc.passed rfl e hhead hne)
  · rintro ret rfl hf e he'
    by_contra hne
    obtain ⟨a, hhead, ⟨c, hcalls, hslot⟩, hqueue, -⟩ := test_handled h.sound he
    obtain ⟨rest, hq⟩ : ∃ rest, p.queue = a :: rest := List.head?_eq_some_iff.mp hhead
    rw [hq, List.tail_cons] at he'
    obtain ⟨c', hcalls', hslot'⟩ := hc.ended ((fatal_iff h.sound he).mp hf) e
      (by rw [hqueue, hq]; exact List.mem_cons_of_mem a he') hne
    obtain rfl : c = c' := by simpa [hcalls] using hcalls'
    have hd := h.sound.distinct
    rw [hq, List.map_cons, List.nodup_cons, ← hslot, hslot'] at hd
    exact hd.1 (List.mem_map_of_mem he')

theorem consumed_iff (lfd : ℤ) (inherited : Finset ℤ) (ls : List Label) (p : Process)
    (hr : (system lfd inherited).Run (start lfd inherited) ls p) :
    (system lfd inherited).Along Consumed (start lfd inherited) ls ↔
      (system lfd inherited).Guarded Dispatched (start lfd inherited) ls := by
  apply System.along_iff_guarded (K := Processed lfd) _ _ _ (start_processed lfd inherited) hr
  · exact fun p h => h.consumed
  · exact fun p l p' h hg he => step_processed h hg he
  · exact fun p l p' h hg he => step_unconsumed h hg he

theorem consumed_iff_accepted : ∃ p, (system 3 {0, 1, 2, 4}).Run (start 3 {0, 1, 2, 4})
    (round 3 EPOLLIN (some (.accept 5)) none) p ∧
    ((system 3 {0, 1, 2, 4}).Along Consumed (start 3 {0, 1, 2, 4})
        (round 3 EPOLLIN (some (.accept 5)) none) ↔
      (system 3 {0, 1, 2, 4}).Guarded Dispatched (start 3 {0, 1, 2, 4})
        (round 3 EPOLLIN (some (.accept 5)) none)) := by
  have hrun : ((system 3 {0, 1, 2, 4}).exec (start 3 {0, 1, 2, 4})
      (round 3 EPOLLIN (some (.accept 5)) none)).isSome = true := rfl
  obtain ⟨p, hr⟩ := System.exists_run hrun
  exact ⟨p, hr, consumed_iff 3 {0, 1, 2, 4} _ p hr⟩

/-- A connection is reported with `EPOLLHUP` alone: neither test is true, and its entry stays
in the epoll set. -/
theorem hangup_unhandled : ∃ p e, (system 3 {0, 1, 2, 4}).Reachable p ∧
    p.queue.head? = some e ∧ e.events = EPOLLHUP ∧ p.phase = .advance ∧ p.calls = [] ∧
    (p.reactor.Events e.ptr).status = 1 ∧ ¬ Consumed p := by
  have hrun : ((system 3 {0, 1, 2, 4}).exec (start 3 {0, 1, 2, 4})
      (round 3 EPOLLIN (some (.accept 5)) none ++
        [.wait [(5, EPOLLHUP)], .test none, .test none])).map
      (fun p => (p.queue.head?, p.phase, p.calls, (p.reactor.Events 0).status)) =
        some (some ⟨0, EPOLLHUP, some (.connection 0)⟩, .advance, [], 1) := rfl
  obtain ⟨p, hp, he⟩ := System.Reachable.observe rfl hrun
  simp only [Prod.mk.injEq] at he
  obtain ⟨hq, hph, hcalls, hs⟩ := he
  refine ⟨p, _, hp, hq, rfl, hph, hcalls, hs, fun h => ?_⟩
  obtain ⟨c, hc, -⟩ := h.passed hph _ hq (by decide)
  simp [hcalls] at hc

end UnixProgramming.EpollReactor
