import UnixProgramming.EpollReactor.Consistency

/-! The event loop: the entries that `main` has not passed yet still describe
their slots, so each of them leads to at most one call for its own connection. -/

namespace UnixProgramming.EpollReactor

open Library Library.Transition

variable {r r' : Reactor} {p p' : Process} {e : Reported} {lfd : ℤ} {handler : CallBack}
  {bit : Mask} {next : Phase} {ret : Option Returned}

structure Pending (r : Reactor) (e : Reported) : Prop where
  status : (r.Events e.ptr).status = 1
  file : r.fds.file (r.Events e.ptr).fd = e.file
  events : e.events &&& ~~~((r.Events e.ptr).events ||| EPOLLERR ||| EPOLLHUP) = 0

structure Matches (e : Reported) (c : Call) : Prop where
  slot : c.slot = e.ptr
  file : c.file = e.file
  readable : c.handler ≠ .sendData → has e.events EPOLLIN = true
  writable : c.handler = .sendData → has e.events EPOLLOUT = true
  connection : c.handler ≠ .acceptconnection → ∃ n, e.file = some (.connection n)

def Ahead (p : Process) (e : Reported) : Prop :=
  match p.phase with
  | .readable => p.calls = [] ∧ Pending p.reactor e
  | .writable => p.calls = [] ∧ Pending p.reactor e ∨ has e.events EPOLLOUT = false
  | .wait | .advance => True

structure Sound (lfd : ℤ) (p : Process) : Prop where
  consistent : Consistent lfd p.reactor
  distinct : (p.queue.map Reported.ptr).Nodup
  waiting : ∀ e ∈ p.queue.tail, Pending p.reactor e
  once : ∀ e, p.queue.head? = some e → p.calls.length ≤ 1 ∧ ∀ c ∈ p.calls, Matches e c
  ahead : p.exit = none → ∀ e, p.queue.head? = some e → Ahead p e

inductive Tested (p : Process) (e : Reported) (bit : Mask) (next : Phase) :
    Option Returned → Process → Prop
  | skips : ¬ (has (p.reactor.Events e.ptr).events bit = true ∧ has e.events bit = true) →
      Tested p e bit next none { p with phase := next }
  | returns {handler : CallBack} {ret : Returned} {r : Reactor} :
      has (p.reactor.Events e.ptr).events bit = true → has e.events bit = true →
      (p.reactor.Events e.ptr).call_back = some handler →
      callBack p.reactor e.ptr handler ret = some (.ok r) →
      Tested p e bit next (some ret) { p with
        reactor := r
        calls := p.calls ++ [⟨handler, e.ptr, p.reactor.fds.file (p.reactor.Events e.ptr).fd⟩]
        phase := next }
  | exits {handler : CallBack} {ret : Returned} {message : String} :
      has (p.reactor.Events e.ptr).events bit = true → has e.events bit = true →
      (p.reactor.Events e.ptr).call_back = some handler →
      callBack p.reactor e.ptr handler ret = some (.error message) →
      Tested p e bit next (some ret) { p with
        calls := p.calls ++ [⟨handler, e.ptr, p.reactor.fds.file (p.reactor.Events e.ptr).fd⟩]
        exit := some message }
  | crashes : (p.reactor.Events e.ptr).call_back = none →
      Tested p e bit next none { p with exit := some "SIGSEGV" }

lemma testStep_cases (he : testStep p bit next ret = some p') :
    ∃ e rest, p.queue = e :: rest ∧ Tested p e bit next ret p' := by
  cases hq : p.queue with
  | nil => simp [testStep, hq] at he
  | cons e rest =>
    refine ⟨e, rest, rfl, ?_⟩
    simp only [testStep, hq] at he
    simp only [testEvent] at he
    split_ifs at he with hbit hret
    · cases hcb : (p.reactor.Events e.ptr).call_back with
      | none =>
        cases ret with
        | none =>
          simp only [hcb, Option.some.injEq] at he
          subst he
          exact .crashes hcb
        | some ret => simp [hcb] at he
      | some handler =>
        cases ret with
        | none => simp [hcb] at he
        | some ret =>
          simp only [hcb] at he
          obtain ⟨result, hres, rfl⟩ := Option.map_eq_some_iff.mp he
          cases result with
          | ok r => exact .returns hbit.1 hbit.2 hcb hres
          | error message => exact .exits hbit.1 hbit.2 hcb hres
    · obtain rfl := Option.some.inj he
      rw [hret]
      exact .skips hbit

lemma not_reported_out {mask : Mask}
    (h : mask &&& ~~~(EPOLLIN ||| EPOLLERR ||| EPOLLHUP) = 0) : has mask EPOLLOUT = false := by
  have hout : EPOLLOUT = ~~~(EPOLLIN ||| EPOLLERR ||| EPOLLHUP) &&& EPOLLOUT := by decide
  have hzero : mask &&& EPOLLOUT = 0 := by
    rw [hout, ← BitVec.and_assoc, h]
    exact BitVec.zero_and
  simp [has, hzero]

lemma armed_bit (h : Consistent lfd r) (hp : Pending r e) (hb : bit = EPOLLIN ∨ bit = EPOLLOUT)
    (hbit : has (r.Events e.ptr).events bit = true)
    (hcb : (r.Events e.ptr).call_back = some handler) :
    bit = EPOLLIN ∧ handler ≠ .sendData ∧ has e.events EPOLLOUT = false ∨
      bit = EPOLLOUT ∧ handler = .sendData := by
  have hmask := hp.events
  have harmed := h.armed_handler hp.status hcb
  have hin : (r.Events e.ptr).events = EPOLLIN → handler ≠ .sendData →
      bit = EPOLLIN ∧ handler ≠ .sendData ∧ has e.events EPOLLOUT = false := by
    intro hev hh
    rw [hev] at hbit hmask
    rcases hb with rfl | rfl
    · exact ⟨rfl, hh, not_reported_out hmask⟩
    · exact absurd hbit (by decide)
  rcases harmed with ⟨-, hev, rfl⟩ | ⟨-, ⟨hev, rfl⟩ | ⟨hev, rfl⟩⟩
  · exact Or.inl (hin hev (by decide))
  · exact Or.inl (hin hev (by decide))
  · rw [hev] at hbit
    rcases hb with rfl | rfl
    · exact absurd hbit (by decide)
    · exact Or.inr ⟨rfl, rfl⟩

lemma call_matches (h : Consistent lfd r) (hp : Pending r e)
    (hb : bit = EPOLLIN ∨ bit = EPOLLOUT) (hbit : has (r.Events e.ptr).events bit = true)
    (he : has e.events bit = true) (hcb : (r.Events e.ptr).call_back = some handler) :
    Matches e ⟨handler, e.ptr, r.fds.file (r.Events e.ptr).fd⟩ := by
  have harmed := armed_bit h hp hb hbit hcb
  refine ⟨rfl, hp.file, fun hh => ?_, fun hh => ?_, fun hh => ?_⟩
  · rcases harmed with ⟨rfl, -⟩ | ⟨-, hs⟩
    · exact he
    · exact absurd hs hh
  · rcases harmed with ⟨-, hs, -⟩ | ⟨rfl, -⟩
    · exact absurd hh hs
    · exact he
  · rcases h.armed_handler hp.status hcb with ⟨-, -, hl⟩ | ⟨hl, -⟩
    · exact absurd hl hh
    · obtain ⟨n, hn⟩ := h.connected e.ptr hl hp.status
      exact ⟨n, hp.file.symm.trans hn⟩

lemma Pending.undisturbed {i : Slot} (hp : Pending r e) (hu : Undisturbed r i r')
    (hi : e.ptr ≠ i) : Pending r' e := by
  obtain ⟨hev, hf⟩ := hu e.ptr hi hp.status
  refine ⟨by rw [hev]; exact hp.status, by rw [hev, hf]; exact hp.file, ?_⟩
  rw [hev]
  exact hp.events

lemma Tested.sound {rest : List Reported} (h : Sound lfd p)
    (hq : p.queue = e :: rest) (hb : bit = EPOLLIN ∨ bit = EPOLLOUT)
    (hcalls : has e.events bit = true → p.calls = [] ∧ Pending p.reactor e)
    (hnext : bit = EPOLLIN ∧ next = .writable ∨ bit = EPOLLOUT ∧ next = .advance)
    (hskip : Ahead { p with phase := next } e) (ht : Tested p e bit next ret p') :
    Sound lfd p' := by
  have hhead : ∀ a, p.queue.head? = some a → a = e := fun a ha => by
    rw [hq] at ha
    exact (Option.some.inj ha).symm
  cases ht with
  | skips =>
    refine ⟨h.consistent, h.distinct, h.waiting, h.once, fun _ a ha => ?_⟩
    rw [hhead a ha]
    exact hskip
  | @returns handler ret r hbit he hcb hres =>
    obtain ⟨hnil, hp⟩ := hcalls he
    have heff : Effect p.reactor e.ptr ret r :=
      callBack_effect h.consistent hp.status hcb hres
    have hu : Undisturbed p.reactor e.ptr r := heff.undisturbed h.consistent hp.status
    refine ⟨heff.consistent h.consistent hp.status, h.distinct, fun a ha => ?_, fun a ha => ?_,
      fun _ a ha => ?_⟩
    · have hne : a.ptr ≠ e.ptr := by
        have hd := h.distinct
        rw [hq, List.map_cons, List.nodup_cons] at hd
        rintro hptr
        apply hd.1
        rw [← hptr]
        exact List.mem_map_of_mem (by simpa [hq] using ha)
      exact (h.waiting a ha).undisturbed hu hne
    · rw [hhead a ha]
      simpa [hnil] using call_matches h.consistent hp hb hbit he hcb
    · rw [hhead a ha]
      rcases hnext with ⟨rfl, rfl⟩ | ⟨rfl, rfl⟩
      · rcases armed_bit h.consistent hp hb hbit hcb with ⟨-, -, hout⟩ | ⟨hne, -⟩
        · exact Or.inr hout
        · exact absurd hne (by decide)
      · trivial
  | @exits handler ret message hbit he hcb hres =>
    obtain ⟨hnil, hp⟩ := hcalls he
    refine ⟨h.consistent, h.distinct, h.waiting, fun a ha => ?_, fun hn => by cases hn⟩
    rw [hhead a ha]
    simpa [hnil] using call_matches h.consistent hp hb hbit he hcb
  | crashes => exact ⟨h.consistent, h.distinct, h.waiting, h.once, fun hn => by cases hn⟩

lemma testStep_sound (h : Sound lfd p) (hx : p.exit = none)
    (hph : p.phase = .readable ∧ bit = EPOLLIN ∧ next = .writable ∨
      p.phase = .writable ∧ bit = EPOLLOUT ∧ next = .advance)
    (he : testStep p bit next ret = some p') : Sound lfd p' := by
  obtain ⟨e, rest, hq, ht⟩ := testStep_cases he
  have ha : Ahead p e := h.ahead hx e (by rw [hq]; rfl)
  rcases hph with ⟨hph, rfl, rfl⟩ | ⟨hph, rfl, rfl⟩
  · simp only [Ahead, hph] at ha
    exact ht.sound h hq (Or.inl rfl) (fun _ => ha) (Or.inl ⟨rfl, rfl⟩) (Or.inl ha)
  · simp only [Ahead, hph] at ha
    refine ht.sound h hq (Or.inr rfl) (fun hout => ?_) (Or.inr ⟨rfl, rfl⟩) trivial
    rcases ha with ha | ha
    · exact ha
    · rw [ha] at hout
      cases hout

lemma report_pending (h : Consistent lfd r) {x : ℤ × Mask}
    (hx : (r.interest x.1).any (fun entry =>
      x.2 &&& ~~~(entry.2 ||| EPOLLERR ||| EPOLLHUP) == 0) = true)
    (he : report r x = some e) : Pending r e := by
  obtain ⟨entry, hi, rfl⟩ := Option.map_eq_some_iff.mp he
  obtain ⟨hs, hfd, hev⟩ := (h.registers x.1 entry.1 entry.2).mp hi
  rw [hi, Option.any_some, beq_iff_eq, ← hev] at hx
  exact ⟨hs, by rw [hfd], hx⟩

lemma report_distinct (h : Consistent lfd r) {ready : List (ℤ × Mask)}
    (hn : (ready.map Prod.fst).Nodup) : ((ready.filterMap (report r)).map Reported.ptr).Nodup := by
  have hptr : (ready.filterMap (report r)).map Reported.ptr =
      (ready.map Prod.fst).filterMap fun fd => (r.interest fd).map Prod.fst := by
    rw [List.map_filterMap, List.filterMap_map]
    congr 1
    funext x
    simp [report, Function.comp_def]
  rw [hptr]
  refine hn.filterMap fun fd fd' i hi hi' => ?_
  obtain ⟨⟨_, m⟩, he, rfl⟩ := Option.map_eq_some_iff.mp hi
  obtain ⟨⟨_, m'⟩, he', rfl⟩ := Option.map_eq_some_iff.mp hi'
  obtain ⟨-, hfd, -⟩ := (h.registers _ _ _).mp he
  obtain ⟨-, hfd', -⟩ := (h.registers _ _ _).mp he'
  exact hfd.symm.trans hfd'

lemma waitStep_sound {ready : List (ℤ × Mask)} (h : Sound lfd p)
    (he : waitStep p ready = some p') : Sound lfd p' := by
  simp only [waitStep, Option.ite_none_right_eq_some, Option.some.injEq] at he
  obtain ⟨⟨-, hr⟩, rfl⟩ := he
  simp only [reportable, Bool.and_eq_true, decide_eq_true_eq, List.all_eq_true] at hr
  obtain ⟨⟨-, hn⟩, hall⟩ := hr
  have hp : ∀ e ∈ ready.filterMap (report p.reactor), Pending p.reactor e := by
    intro e he
    obtain ⟨x, hx, hxe⟩ := List.mem_filterMap.mp he
    exact report_pending h.consistent (hall x hx) hxe
  refine ⟨h.consistent, report_distinct h.consistent hn, fun e he => hp e (List.mem_of_mem_tail he),
    fun e he => by simp, fun _ e he => ?_⟩
  have hpe : Pending p.reactor e := hp e (List.mem_of_mem_head? he)
  by_cases hnil : ready = []
  · simp [Ahead, hnil]
  · simpa [Ahead, hnil] using hpe

lemma advanceStep_sound (h : Sound lfd p) (he : advanceStep p = some p') : Sound lfd p' := by
  simp only [advanceStep, Option.ite_none_right_eq_some, Option.some.injEq] at he
  obtain ⟨-, rfl⟩ := he
  have htail : (p.queue.tail.map Reported.ptr).Nodup := by
    rw [List.map_tail]
    exact h.distinct.tail
  refine ⟨h.consistent, htail, fun e he => h.waiting e (List.mem_of_mem_tail he),
    fun e he => by simp, fun _ e he => ?_⟩
  have hp : Pending p.reactor e := h.waiting e (List.mem_of_mem_head? he)
  by_cases hnil : p.queue.tail = []
  · simp [Ahead, hnil]
  · simpa [Ahead, hnil] using hp

lemma start_sound (lfd : ℤ) (inherited : Finset ℤ) : Sound lfd (start lfd inherited) where
  consistent := boot_consistent lfd inherited
  distinct := List.nodup_nil
  waiting _ he := by cases he
  once _ he := by cases he
  ahead _ _ he := by cases he

lemma sound_inductive (lfd : ℤ) (inherited : Finset ℤ) :
    (system lfd inherited).Inductive (Sound lfd) where
  initial := by
    rintro _ rfl
    exact start_sound lfd inherited
  step p l p' h he := by
    have hx : p.exit = none := by
      by_contra hx
      simp [system, step, Option.isSome_iff_ne_none.mpr hx] at he
    simp only [system, step, hx, Option.isSome_none, Bool.false_eq_true, if_false] at he
    cases l with
    | wait ready => exact waitStep_sound h he
    | waitFails =>
      obtain ⟨-, rfl⟩ : _ ∧ { p with exit := some "epoll_wait()" } = p' := by simpa using he
      exact ⟨h.consistent, h.distinct, h.waiting, h.once, fun hn => by cases hn⟩
    | test ret =>
      cases hph : p.phase with
      | readable =>
        simp only [hph] at he
        exact testStep_sound h hx (Or.inl ⟨hph, rfl, rfl⟩) he
      | writable =>
        simp only [hph] at he
        exact testStep_sound h hx (Or.inr ⟨hph, rfl, rfl⟩) he
      | wait | advance => simp [hph] at he
    | advance => exact advanceStep_sound h he

-- A batch of one entry, with what the two tests return.
def round (fd : ℤ) (events : Mask) (first second : Option Returned) : List Label :=
  [.wait [(fd, events)], .test first, .test second, .advance]

theorem table_agrees (lfd : ℤ) (inherited : Finset ℤ) (p : Process)
    (h : (system lfd inherited).Reachable p) :
    (∀ i, (p.reactor.Events i).status = 1 ↔
      p.reactor.interest (p.reactor.Events i).fd = some (i, (p.reactor.Events i).events)) ∧
    (∀ fd i events, p.reactor.interest fd = some (i, events) → (p.reactor.Events i).status = 1 ∧
      (p.reactor.Events i).fd = fd ∧ (p.reactor.Events i).events = events) ∧
    (∀ i j, (p.reactor.Events i).status = 1 → (p.reactor.Events j).status = 1 →
      (p.reactor.Events i).fd = (p.reactor.Events j).fd → i = j) ∧
    (∀ i, (p.reactor.Events i).status = 1 →
      p.reactor.fds.file (p.reactor.Events i).fd ≠ none) ∧
    (∀ i, i ≠ listener → (p.reactor.Events i).status = 1 →
      (p.reactor.Events i).events = EPOLLIN ∧ (p.reactor.Events i).call_back = some .recvData ∨
        (p.reactor.Events i).events = EPOLLOUT ∧
          (p.reactor.Events i).call_back = some .sendData) ∧
    p.reactor.Events listener = ⟨lfd, EPOLLIN, some listener, 1, some .acceptconnection⟩ := by
  have hc : Consistent lfd p.reactor := ((sound_inductive lfd inherited).reachable h).consistent
  refine ⟨fun i => ?_, fun fd i events => (hc.registers fd i events).mp,
    fun i j => hc.registers.unique, fun i hs => ?_, hc.armed, hc.listening⟩
  · constructor
    · intro hs
      exact (hc.registers _ _ _).mpr ⟨hs, rfl, rfl⟩
    · intro he
      exact ((hc.registers _ _ _).mp he).1
  · obtain ⟨f, hf⟩ := hc.opened hs
    rw [hf]
    exact Option.some_ne_none f

theorem table_agrees_accepted : ∃ p, (system 3 {0, 1, 2, 4}).Reachable p ∧
    (p.reactor.Events 0).status = 1 ∧
    p.reactor.interest (p.reactor.Events 0).fd = some (0, (p.reactor.Events 0).events) := by
  have hrun : ((system 3 {0, 1, 2, 4}).exec (start 3 {0, 1, 2, 4})
      (round 3 EPOLLIN (some (.accept 5)) none)).map (fun p => (p.reactor.Events 0).status) =
        some 1 := rfl
  obtain ⟨p, hp, hs⟩ := System.Reachable.observe rfl hrun
  exact ⟨p, hp, hs, ((table_agrees 3 {0, 1, 2, 4} p hp).1 0).mp hs⟩

/-- Two clients leave and the next one gets the second client's descriptor, in
the first slot: the second slot is free and its descriptor is in the epoll set. -/
theorem free_slot_in_epoll_set : ¬ ∀ p, (system 3 {0, 1, 2, 4}).Reachable p → p.exit = none →
    ∀ i, (p.reactor.Events i).status = 1 ↔
      p.reactor.interest (p.reactor.Events i).fd ≠ none := by
  -- The last `accept` returns 6 while 5 is closed too: any closed descriptor is allowed here,
  -- unlike under the rule that the lowest one is given out.
  have hrun : ((system 3 {0, 1, 2, 4}).exec (start 3 {0, 1, 2, 4})
      (round 3 EPOLLIN (some (.accept 5)) none ++ round 3 EPOLLIN (some (.accept 6)) none ++
        round 5 EPOLLIN (some (.recv (some []))) none ++
        round 6 EPOLLIN (some (.recv (some []))) none ++
        round 3 EPOLLIN (some (.accept 6)) none)).map
      (fun p => (p.exit, (p.reactor.Events 1).status,
        p.reactor.interest (p.reactor.Events 1).fd)) = some (none, 0, some (0, EPOLLIN)) := rfl
  obtain ⟨p, hp, he⟩ := System.Reachable.observe rfl hrun
  obtain ⟨hx, hs, hi⟩ : _ ∧ _ ∧ _ := by simpa only [Prod.mk.injEq] using he
  intro h
  have hone : (p.reactor.Events 1).status = 1 := by
    apply (h p hp hx 1).mpr
    rw [hi]
    exact Option.some_ne_none _
  omega

theorem dispatch_matches (lfd : ℤ) (inherited : Finset ℤ) (p : Process)
    (h : (system lfd inherited).Reachable p) (e : Reported) (he : p.queue.head? = some e) :
    p.calls.length ≤ 1 ∧ ∀ c ∈ p.calls, Matches e c :=
  ((sound_inductive lfd inherited).reachable h).once e he

theorem dispatch_matches_received : ∃ p e, (system 3 {0, 1, 2, 4}).Reachable p ∧
    p.queue.head? = some e ∧ p.calls.length ≤ 1 ∧ ∀ c ∈ p.calls, Matches e c := by
  have hrun : ((system 3 {0, 1, 2, 4}).exec (start 3 {0, 1, 2, 4})
      (round 3 EPOLLIN (some (.accept 5)) none ++
        [.wait [(5, EPOLLIN)], .test (some (.recv (some [65])))])).map (fun p => p.queue.head?) =
        some (some ⟨0, EPOLLIN, some (.connection 0)⟩) := rfl
  obtain ⟨p, hp, he⟩ := System.Reachable.observe rfl hrun
  exact ⟨p, _, hp, he, dispatch_matches 3 {0, 1, 2, 4} p hp _ he⟩

end UnixProgramming.EpollReactor
