import UnixProgramming.Library.Copies
import UnixProgramming.Library.Scan
import UnixProgramming.EpollReactor.Alternation
import UnixProgramming.ThreadServer.Connections

/-! The streams that the clients of the two servers receive, beside the chunks that they have
sent. Both servers ask for 32 bytes of a text that is shorter. -/

namespace UnixProgramming

open Library Library.Transition

namespace EpollReactor

def response : List UInt8 :=
  bytes "message from the server\n"

/-- The calls of `recv` and `send` that return a positive count. -/
def Label.traffic : Label → Option Traffic
  | .test (some (.recv (some (b :: bs)))) => some (.chunk (b :: bs))
  | .test (some (.send len)) => if 0 < len then some (.copy len.toNat) else none
  | _ => none

def streams (lfd : ℤ) (inherited : Finset ℤ) : System (Process × (ℕ → List Traffic)) Label :=
  (system lfd inherited).record (fun _ => []) fun x p l => carry x (current p) l.traffic

def SendsWhole (l : Label) : Prop :=
  ∀ len, l = .test (some (.send len)) → 0 < len → Fits response len.toNat

variable {p p' : Process} {l : Label} {lfd : ℤ} {x : ℕ → List Traffic} {n c : ℕ}
  {es : List Traffic} {beyond : ℕ → UInt8}

lemma response_whole : Whole response beyond es ↔
    (∀ c ∈ copied es, Fits response c) ∧ Answered es :=
  whole_iff (b := 10) (show 10 ∉ bytes "message from the server" by decide) (by decide)

lemma traffic_none (h : l.exchange = none) : l.traffic = none := by
  cases l with
  | wait ready | waitFails | advance => rfl
  | test ret =>
    cases ret with
    | none => rfl
    | some ret =>
      cases ret with
      | accept fd => rfl
      | recv bytes =>
        rcases recv_cases bytes with (rfl | rfl) | ⟨b, bs, rfl⟩
        · rfl
        · rfl
        · cases h
      | send len =>
        by_cases hlen : 0 < len
        · simp [Label.exchange, hlen] at h
        · exact if_neg hlen

lemma traffic_request (h : l.exchange = some .request) :
    ∃ bytes, bytes ≠ [] ∧ l.traffic = some (.chunk bytes) := by
  unfold Label.exchange at h
  split at h
  · exact ⟨_, List.cons_ne_nil _ _, rfl⟩
  · split_ifs at h
    cases h
  · cases h

lemma traffic_response {len : ℕ} (h : l.exchange = some (.response len)) :
    l.traffic = some (.copy len) := by
  unfold Label.exchange at h
  split at h
  · cases h
  · split_ifs at h with hlen
    cases h
    exact if_pos hlen
  · cases h

lemma traffic_copy (h : l.traffic = some (.copy c)) :
    ∃ len, l = .test (some (.send len)) ∧ 0 < len ∧ c = len.toNat := by
  unfold Label.traffic at h
  split at h
  · cases h
  · next len =>
    split_ifs at h with hlen
    exact ⟨len, rfl, hlen, (Traffic.copy.inj (Option.some.inj h)).symm⟩
  · cases h

lemma step_conversed (h : Sound lfd p) (hx : Conversed (Answering p.reactor) x)
    (he : step p l = some p') :
    Conversed (Answering p'.reactor) (carry x (current p) l.traffic) := by
  cases step_speaks h he with
  | silent hnone ha =>
    rw [traffic_none hnone]
    cases current p <;> exact hx.mono fun n => (ha n).mp
  | asked n hcur hask _ _ hother =>
    obtain ⟨bytes, hb, ht⟩ := traffic_request hask
    rw [hcur, ht, carry_some]
    exact hx.chunk hb fun m hm => (hother m hm).mp
  | answered n len hcur hans hbusy hnext hother =>
    rw [hcur, traffic_response hans, carry_some]
    exact hx.copy hbusy hnext fun m hm => (hother m hm).mp

lemma step_sends (h : ∀ n, ∀ c ∈ copied (x n), Fits response c) (hl : SendsWhole l) (n : ℕ) :
    ∀ c ∈ copied (carry x (current p) l.traffic n), Fits response c := by
  intro c hc
  rcases mem_carry (mem_copied.mp hc) with hold | hnew
  · exact h n c (mem_copied.mpr hold)
  · obtain ⟨len, hlen, hpos, rfl⟩ := traffic_copy hnew
    exact hl len hlen hpos

lemma send_current {len : ℤ} (h : Sound lfd p) (he : step p (.test (some (.send len))) = some p') :
    ∃ n, current p = some n := by
  obtain ⟨e, handler, hhead, hs, hcb, hres⟩ := test_called h he
  have hhandler : handler = .sendData := by
    cases handler with
    | sendData => rfl
    | acceptconnection | recvData => rcases hres with ⟨hres, -⟩ | ⟨_, hres, -⟩ <;> cases hres
  rcases h.consistent.armed_handler hs hcb with ⟨-, -, rfl⟩ | ⟨hi, -⟩
  · cases hhandler
  · obtain ⟨n, hn⟩ := h.consistent.holds hi hs
    exact ⟨n, current_holds hhead hn⟩

lemma step_sends_other (h : Sound lfd p) (hl : ¬ SendsWhole l) (he : step p l = some p') :
    ∃ n, ¬ Whole response beyond (carry x (current p) l.traffic n) := by
  simp only [SendsWhole, not_forall] at hl
  obtain ⟨len, rfl, hpos, hlen⟩ := hl
  obtain ⟨n, hn⟩ := send_current h he
  have ha : Label.traffic (.test (some (.send len))) = some (.copy len.toNat) := if_pos hpos
  refine ⟨n, fun hwhole => hlen ((response_whole.mp hwhole).1 _ (mem_copied.mpr ?_))⟩
  rw [hn, ha, carry_some]
  exact mem_update_append.mpr (Or.inr ⟨rfl, rfl⟩)

lemma start_answering (n : ℕ) (inherited : Finset ℤ) :
    ¬ Answering (start lfd inherited).reactor n := by
  rintro ⟨i, hi, -⟩
  exact absurd hi.file Descriptors.boot_connection

lemma responses_whole_iff (lfd : ℤ) (inherited : Finset ℤ) (beyond : ℕ → UInt8)
    (ls : List Label) (q : Process × (ℕ → List Traffic))
    (hr : (streams lfd inherited).Run (start lfd inherited, fun _ => []) ls q) :
    (streams lfd inherited).Along (fun q => ∀ n, Whole response beyond (q.2 n))
        (start lfd inherited, fun _ => []) ls ↔
      (streams lfd inherited).Guarded (fun _ l => SendsWhole l)
        (start lfd inherited, fun _ => []) ls := by
  apply System.along_iff_guarded
    (K := fun q => (Sound lfd q.1 ∧ Conversed (Answering q.1.reactor) q.2) ∧
      ∀ n, ∀ c ∈ copied (q.2 n), Fits response c) _ _ _
    ⟨⟨start_sound lfd inherited, conversed_nil fun n => start_answering n inherited⟩,
      fun _ _ hc => by cases hc⟩ hr
  · rintro q ⟨⟨-, hx⟩, h⟩ n
    exact response_whole.mpr ⟨h n, hx.answered n⟩
  · rintro q l q' ⟨⟨hs, hc⟩, h⟩ hl he
    obtain ⟨he, hx⟩ := System.record_step.mp he
    rw [hx]
    exact ⟨⟨(sound_inductive lfd inherited).step q.1 l q'.1 hs he, step_conversed hs hc he⟩,
      step_sends h hl⟩
  · rintro q l q' ⟨⟨hs, -⟩, -⟩ hl he hwhole
    obtain ⟨he, hx⟩ := System.record_step.mp he
    obtain ⟨n, hn⟩ := step_sends_other hs hl he
    rw [← hx] at hn
    exact hn (hwhole n)

end EpollReactor

namespace ThreadServer

def response : List UInt8 :=
  bytes "successfully sent\n"

def Label.returns (l : Label) (ret : ℤ) : Bool :=
  match l with
  | .write _ => -1 ≤ ret && ret ≤ 32
  | _ => true

/-- The steps of the server, those of `write` with the count that it returns. -/
def counted (lfd : ℤ) (inherited : Finset ℤ) : System State (Label × ℤ) :=
  (system lfd inherited).attach Label.returns

def served (s : State) (t : ℕ) : Option ℕ :=
  match (s.threads t).bind fun w => s.fds.file (s.socks w.slot).cfd with
  | some (.connection n) => some n
  | _ => none

def speaker (s : State) : Label → Option ℕ
  | .read t _ | .write t => served s t
  | _ => none

/-- The calls of `read` and `write` that return a positive count. -/
def traffic : Label × ℤ → Option Traffic
  | (.read _ (.data (b :: bs) _), _) => some (.chunk (b :: bs))
  | (.write _, ret) => if 0 < ret then some (.copy ret.toNat) else none
  | _ => none

def streams (lfd : ℤ) (inherited : Finset ℤ) :
    System (State × (ℕ → List Traffic)) (Label × ℤ) :=
  (counted lfd inherited).record (fun _ => []) fun x s l => carry x (speaker s l.1) (traffic l)

def WritesWhole (l : Label × ℤ) : Prop :=
  ∀ t, l.1 = .write t → 0 < l.2 → Fits response l.2.toNat

def Replying (s : State) (n : ℕ) : Prop :=
  ∃ t w, s.threads t = some w ∧ w.pc = .reply ∧ w.conn = some (.connection n)

variable {s s' : State} {l : Label × ℤ} {x : ℕ → List Traffic} {n c t : ℕ} {w v : Worker}
  {es : List Traffic} {beyond : ℕ → UInt8} {r : ReadResult} {pc : WorkerPc}

lemma response_whole : Whole response beyond es ↔
    (∀ c ∈ copied es, Fits response c) ∧ Answered es :=
  whole_iff (b := 10) (show 10 ∉ bytes "successfully sent" by decide) (by decide)

lemma served_eq (ho : Owned s) (ht : s.threads t = some w) (hw : w.pc.holding = true)
    (hn : w.conn = some (.connection n)) : served s t = some n := by
  simp only [served, ht, Option.bind_some, ho.holding t w ht hw, hn]

lemma Replying.of_frame (hf : ∀ t w, s'.threads t = some w → w.pc = .reply → s.threads t = some w)
    (h : Replying s' n) : Replying s n := by
  obtain ⟨t, w, ht, hpc, hn⟩ := h
  exact ⟨t, w, hf t w ht hpc, hpc, hn⟩

lemma replying_turn
    (hth : s'.threads = Function.update s.threads t (some { w with pc := pc }))
    (hpc : pc ≠ .reply) (h : Replying s' n) : Replying s n := by
  refine h.of_frame fun u v hu hv => ?_
  rw [hth] at hu
  rcases update_worker.mp hu with ⟨-, rfl⟩ | ⟨-, hu⟩
  · exact absurd hv hpc
  · exact hu

lemma replying_other (hn : w.conn = some (.connection n))
    (hth : s'.threads = Function.update s.threads t (some { w with pc := pc })) (m : ℕ)
    (hm : m ≠ n) (h : Replying s' m) : Replying s m := by
  obtain ⟨u, v, hu, hv, hc⟩ := h
  rw [hth] at hu
  rcases update_worker.mp hu with ⟨-, rfl⟩ | ⟨-, hu⟩
  · cases hn.symm.trans hc
    exact absurd rfl hm
  · exact ⟨u, v, hu, hv, hc⟩

lemma not_replying (ho : Owned s) (ht : s.threads t = some w)
    (hn : w.conn = some (.connection n))
    (hth : s'.threads = Function.update s.threads t (some { w with pc := pc }))
    (hpc : pc ≠ .reply) : ¬ Replying s' n := by
  rintro ⟨u, v, hu, hv, hc⟩
  rw [hth] at hu
  rcases update_worker.mp hu with ⟨-, rfl⟩ | ⟨hut, hu⟩
  · exact hpc hv
  · exact hut (ho.distinct u t v w hu ht (hc.trans hn.symm))

lemma read_replies (he : step s (.read t r) = some s') : ∃ w pc, s.threads t = some w ∧
    w.pc = .read ∧ s'.threads = Function.update s.threads t (some { w with pc := pc }) ∧
    (pc ≠ .reply ∧ traffic (.read t r, 0) = none ∨
      ∃ bytes, bytes ≠ [] ∧ traffic (.read t r, 0) = some (.chunk bytes)) := by
  simp only [step, Option.ite_none_left_eq_some] at he
  obtain ⟨w, hw, hr⟩ := Option.bind_eq_some_iff.mp he.2
  simp only [readStep, Option.ite_none_right_eq_some] at hr
  obtain ⟨⟨hpc, hpos⟩, hr⟩ := hr
  cases r with
  | error =>
    cases hr
    exact ⟨w, .failed, hw, hpc, rfl, Or.inl ⟨by simp, rfl⟩⟩
  | eof =>
    cases hr
    exact ⟨w, .closing, hw, hpc, rfl, Or.inl ⟨by simp, rfl⟩⟩
  | data bytes rest =>
    cases hr
    cases bytes with
    | nil => simp [ReadResult.possible] at hpos
    | cons b bs => exact ⟨w, _, hw, hpc, rfl, Or.inr ⟨b :: bs, List.cons_ne_nil b bs, rfl⟩⟩

lemma silent_replying {a : Label} (hr : ∀ t r, a ≠ .read t r) (hw : ∀ t, a ≠ .write t)
    (he : step s a = some s') (h : Replying s' n) : Replying s n := by
  obtain ⟨-, hm⟩ := step_cases he
  cases hm with
  | main hm =>
    cases mainStep_cases hm <;> exact h
  | accept hm =>
    obtain ⟨i, r, hr, hs⟩ := acceptStep_cases hm
    obtain ⟨ht, -⟩ := acceptInto_frame hr
    rcases hs with ⟨-, rfl⟩ | ⟨-, rfl⟩ <;> exact h.of_frame fun t w hw _ => ht ▸ hw
  | create hm =>
    obtain ⟨i, -, rfl⟩ := createStep_cases hm
    refine h.of_frame fun t w hw hpc => ?_
    rcases update_worker.mp hw with ⟨-, rfl⟩ | ⟨-, hw⟩
    · cases hpc
    · exact hw
  | dies => exact h
  | worker ht hs =>
    cases workerStep_cases hs with
    | frees hpc =>
      rcases hpc with ⟨-, rfl⟩ | ⟨-, rfl⟩ <;> exact replying_turn rfl (by simp) h
    | starts | closes | raises | returns => exact replying_turn rfl (by simp) h
  | read => exact absurd rfl (hr _ _)
  | write => exact absurd rfl (hw _)
  | kill => exact h
  | deliver hd =>
    obtain ⟨target, -, -, -, rfl⟩ := deliverStep_cases hd
    exact h

lemma step_conversed (ho : Owned s) (hx : Conversed (Replying s) x) (he : step s l.1 = some s') :
    Conversed (Replying s') (carry x (speaker s l.1) (traffic l)) := by
  obtain ⟨a, ret⟩ := l
  by_cases hread : ∃ t r, a = .read t r
  · obtain ⟨t, r, rfl⟩ := hread
    obtain ⟨w, pc, ht, hpc, hth, hr⟩ := read_replies he
    obtain ⟨n, hn, -⟩ := ho.handed t w ht
    have hspeaker : speaker s (.read t r) = some n := served_eq ho ht (by rw [hpc]; rfl) hn
    have htraffic : traffic (.read t r, ret) = traffic (.read t r, 0) := by
      cases r with
      | data bytes rest => cases bytes <;> rfl
      | error | eof => rfl
    rw [hspeaker, htraffic]
    rcases hr with ⟨hne, hnone⟩ | ⟨bytes, hb, hchunk⟩
    · rw [hnone]
      exact hx.mono fun m => replying_turn hth hne
    · rw [hchunk, carry_some]
      exact hx.chunk hb (replying_other hn hth)
  · by_cases hwrite : ∃ t, a = .write t
    · obtain ⟨t, rfl⟩ := hwrite
      obtain ⟨-, hm⟩ := step_cases he
      cases hm with
      | dies hf => cases hf
      | @write _ w ht hpc =>
        obtain ⟨n, hn, -⟩ := ho.handed t w ht
        have hspeaker : speaker s (.write t) = some n := served_eq ho ht (by rw [hpc]; rfl) hn
        rw [hspeaker]
        by_cases hret : 0 < ret
        · have htraffic : traffic (.write t, ret) = some (.copy ret.toNat) := if_pos hret
          rw [htraffic, carry_some]
          exact hx.copy ⟨t, w, ht, hpc, hn⟩ (not_replying ho ht hn rfl (by simp))
            (replying_other hn rfl)
        · have htraffic : traffic (.write t, ret) = none := if_neg hret
          rw [htraffic]
          exact hx.mono fun m => replying_turn rfl (by simp)
    · have hr : ∀ t r, a ≠ .read t r := fun t r h => hread ⟨t, r, h⟩
      have hw : ∀ t, a ≠ .write t := fun t h => hwrite ⟨t, h⟩
      have hspeaker : speaker s a = none := by
        cases a with
        | read t r => exact absurd rfl (hr t r)
        | write t => exact absurd rfl (hw t)
        | _ => rfl
      rw [hspeaker, carry_nobody]
      exact hx.mono fun m => silent_replying hr hw he

lemma traffic_copy (h : traffic l = some (.copy c)) :
    ∃ t, l.1 = .write t ∧ 0 < l.2 ∧ c = l.2.toNat := by
  unfold traffic at h
  split at h
  · cases h
  · next t ret =>
    split_ifs at h with hret
    exact ⟨t, rfl, hret, (Traffic.copy.inj (Option.some.inj h)).symm⟩
  · cases h

lemma step_writes_other (ho : Owned s) (hl : ¬ WritesWhole l) (he : step s l.1 = some s') :
    ∃ n, ¬ Whole response beyond (carry x (speaker s l.1) (traffic l) n) := by
  obtain ⟨a, ret⟩ := l
  simp only [WritesWhole, not_forall] at hl
  obtain ⟨t, rfl, hpos, hret⟩ := hl
  obtain ⟨-, hm⟩ := step_cases he
  cases hm with
  | dies hf => cases hf
  | @write _ w ht hpc =>
    obtain ⟨n, hn, -⟩ := ho.handed t w ht
    have hspeaker : speaker s (.write t) = some n := served_eq ho ht (by rw [hpc]; rfl) hn
    have htraffic : traffic (.write t, ret) = some (.copy ret.toNat) := if_pos hpos
    refine ⟨n, fun hwhole => hret ((response_whole.mp hwhole).1 _ (mem_copied.mpr ?_))⟩
    rw [hspeaker, htraffic, carry_some]
    exact mem_update_append.mpr (Or.inr ⟨rfl, rfl⟩)

lemma replies_whole_iff (lfd : ℤ) (inherited : Finset ℤ) (beyond : ℕ → UInt8)
    (ls : List (Label × ℤ)) (q : State × (ℕ → List Traffic))
    (hr : (streams lfd inherited).Run (start lfd inherited, fun _ => []) ls q) :
    (streams lfd inherited).Along (fun q => ∀ n, Whole response beyond (q.2 n))
        (start lfd inherited, fun _ => []) ls ↔
      (streams lfd inherited).Guarded (fun _ l => WritesWhole l)
        (start lfd inherited, fun _ => []) ls := by
  have hinv := owned_inductive lfd inherited
  have hstart : ∀ n, ¬ Replying (start lfd inherited) n := by
    rintro n ⟨t, w, ht, -⟩
    cases ht
  apply System.along_iff_guarded
    (K := fun q => ((Exclusive q.1 ∧ Owned q.1) ∧ Conversed (Replying q.1) q.2) ∧
      ∀ n, ∀ c ∈ copied (q.2 n), Fits response c) _ _ _
    ⟨⟨hinv.initial _ rfl, conversed_nil hstart⟩, fun _ _ hc => by cases hc⟩ hr
  · rintro q ⟨⟨-, hx⟩, h⟩ n
    exact response_whole.mpr ⟨h n, hx.answered n⟩
  · rintro q l q' ⟨⟨ho, hc⟩, h⟩ hl he
    obtain ⟨he, hx⟩ := System.record_step.mp he
    have hstep := (System.attach_step.mp he).2
    refine ⟨⟨hinv.attach.step q.1 l q'.1 ho he, ?_⟩, fun n c hcopy => ?_⟩
    · rw [hx]
      exact step_conversed ho.2 hc hstep
    · rw [hx] at hcopy
      rcases mem_carry (mem_copied.mp hcopy) with hold | hnew
      · exact h n c (mem_copied.mpr hold)
      · obtain ⟨t, hw, hpos, rfl⟩ := traffic_copy hnew
        exact hl t hw hpos
  · rintro q l q' ⟨⟨⟨-, ho⟩, -⟩, -⟩ hl he hwhole
    obtain ⟨he, hx⟩ := System.record_step.mp he
    obtain ⟨n, hn⟩ := step_writes_other ho hl (System.attach_step.mp he).2
    rw [← hx] at hn
    exact hn (hwhole n)

end ThreadServer

namespace Servers

/-- In every run of the two servers the streams are whole copies of the text, taken from
inside it and each the answer to a chunk, when no positive count is other than the length of
the text, or one more. -/
theorem whole_responses_iff (beyond : ℕ → UInt8) (lfd : ℤ) (inherited : Finset ℤ) :
    (∀ ls q, (EpollReactor.streams lfd inherited).Run
        (EpollReactor.start lfd inherited, fun _ => []) ls q →
      ((EpollReactor.streams lfd inherited).Along
          (fun q => ∀ n, Whole EpollReactor.response beyond (q.2 n))
          (EpollReactor.start lfd inherited, fun _ => []) ls ↔
        (EpollReactor.streams lfd inherited).Guarded (fun _ l => EpollReactor.SendsWhole l)
          (EpollReactor.start lfd inherited, fun _ => []) ls)) ∧
    ∀ ls q, (ThreadServer.streams lfd inherited).Run
        (ThreadServer.start lfd inherited, fun _ => []) ls q →
      ((ThreadServer.streams lfd inherited).Along
          (fun q => ∀ n, Whole ThreadServer.response beyond (q.2 n))
          (ThreadServer.start lfd inherited, fun _ => []) ls ↔
        (ThreadServer.streams lfd inherited).Guarded (fun _ l => ThreadServer.WritesWhole l)
          (ThreadServer.start lfd inherited, fun _ => []) ls) :=
  ⟨EpollReactor.responses_whole_iff lfd inherited beyond,
    ThreadServer.replies_whole_iff lfd inherited beyond⟩

def askReactor (len : ℤ) : List EpollReactor.Label :=
  EpollReactor.round 3 EpollReactor.EPOLLIN (some (.accept 5)) none ++
    EpollReactor.round 5 EpollReactor.EPOLLIN (some (.recv (some [65]))) none ++
    EpollReactor.round 5 EpollReactor.EPOLLOUT none (some (.send len))

def askWorker (ret : ℤ) : List (ThreadServer.Label × ℤ) :=
  [(.main, 0), (.accept 5 7, 0), (.create, 0), (.main, 0), (.main, 0), (.worker 0, 0),
    (.read 0 (.data [65] []), 0), (.write 0, ret)]

theorem whole_responses_asked :
    (∃ q, (EpollReactor.streams 3 {0, 1, 2, 4}).Run
        (EpollReactor.start 3 {0, 1, 2, 4}, fun _ => []) (askReactor 24) q ∧
      ((EpollReactor.streams 3 {0, 1, 2, 4}).Along
          (fun q => ∀ n, Whole EpollReactor.response (fun _ => 0) (q.2 n))
          (EpollReactor.start 3 {0, 1, 2, 4}, fun _ => []) (askReactor 24) ↔
        (EpollReactor.streams 3 {0, 1, 2, 4}).Guarded (fun _ l => EpollReactor.SendsWhole l)
          (EpollReactor.start 3 {0, 1, 2, 4}, fun _ => []) (askReactor 24))) ∧
    ∃ q, (ThreadServer.streams 3 {0, 1, 2, 4}).Run
        (ThreadServer.start 3 {0, 1, 2, 4}, fun _ => []) (askWorker 18) q ∧
      ((ThreadServer.streams 3 {0, 1, 2, 4}).Along
          (fun q => ∀ n, Whole ThreadServer.response (fun _ => 0) (q.2 n))
          (ThreadServer.start 3 {0, 1, 2, 4}, fun _ => []) (askWorker 18) ↔
        (ThreadServer.streams 3 {0, 1, 2, 4}).Guarded (fun _ l => ThreadServer.WritesWhole l)
          (ThreadServer.start 3 {0, 1, 2, 4}, fun _ => []) (askWorker 18)) := by
  have hreactor : ((EpollReactor.streams 3 {0, 1, 2, 4}).exec
      (EpollReactor.start 3 {0, 1, 2, 4}, fun _ => []) (askReactor 24)).isSome = true := rfl
  have hworker : ((ThreadServer.streams 3 {0, 1, 2, 4}).exec
      (ThreadServer.start 3 {0, 1, 2, 4}, fun _ => []) (askWorker 18)).isSome = true := rfl
  obtain ⟨p, hp⟩ := System.exists_run hreactor
  obtain ⟨q, hq⟩ := System.exists_run hworker
  have hboth := whole_responses_iff (fun _ => 0) 3 {0, 1, 2, 4}
  exact ⟨⟨p, hp, hboth.1 _ p hp⟩, q, hq, hboth.2 _ q hq⟩

/-- The calls succeed in full: 32 bytes go out, beyond the end of either text. -/
theorem responses_overrun :
    (∃ q, (EpollReactor.streams 3 {0, 1, 2, 4}).Reachable q ∧
      ¬ Whole EpollReactor.response (fun _ => 0) (q.2 0)) ∧
    ∃ q, (ThreadServer.streams 3 {0, 1, 2, 4}).Reachable q ∧
      ¬ Whole ThreadServer.response (fun _ => 0) (q.2 0) := by
  have hreactor : ((EpollReactor.streams 3 {0, 1, 2, 4}).exec
      (EpollReactor.start 3 {0, 1, 2, 4}, fun _ => []) (askReactor 32)).map
        (fun q => q.2 0) = some [.chunk [65], .copy 32] := rfl
  have hworker : ((ThreadServer.streams 3 {0, 1, 2, 4}).exec
      (ThreadServer.start 3 {0, 1, 2, 4}, fun _ => []) (askWorker 32)).map
        (fun q => q.2 0) = some [.chunk [65], .copy 32] := rfl
  have hp₀ : (EpollReactor.streams 3 {0, 1, 2, 4}).initial
      (EpollReactor.start 3 {0, 1, 2, 4}, fun _ => []) := ⟨rfl, rfl⟩
  have hq₀ : (ThreadServer.streams 3 {0, 1, 2, 4}).initial
      (ThreadServer.start 3 {0, 1, 2, 4}, fun _ => []) := ⟨rfl, rfl⟩
  obtain ⟨p, hp, hsent⟩ := System.Reachable.observe hp₀ hreactor
  obtain ⟨q, hq, hwritten⟩ := System.Reachable.observe hq₀ hworker
  refine ⟨⟨p, hp, fun h => ?_⟩, q, hq, fun h => ?_⟩
  · rw [hsent] at h
    exact absurd (h.inside 32 (List.mem_singleton_self _)) (by decide)
  · rw [hwritten] at h
    exact absurd (h.inside 32 (List.mem_singleton_self _)) (by decide)

end Servers

end UnixProgramming
