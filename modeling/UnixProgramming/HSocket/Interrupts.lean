import UnixProgramming.Library.Rounds
import UnixProgramming.HSocket.Calls

/-! Two runs of a wrapper, one of them with additional interruptions. -/

namespace UnixProgramming.HSocket

open Library

/-- What a user of a wrapper can tell: its result and the bytes it has moved. -/
def Progress.shown (s : Progress) : Phase × World :=
  (s.phase, s.world)

def Unnoticed (f : Wrapper) (w : World) (errno : ℤ) (marks : List Bool) (k : Stream' Outcome) :
    Prop :=
  ∀ a, Settles Progress.round Progress.shown (f.call w errno)
      (interrupt (.failure EINTR) marks k) a ↔
    Settles Progress.round Progress.shown (f.call w errno) k a

def Outcome.WouldBlock (o : Outcome) : Prop :=
  o = .failure EAGAIN ∨ o = .failure EWOULDBLOCK

def Outcome.Failed (o : Outcome) : Prop :=
  ∃ e, o = .failure e

def Outcome.Overlong (o : Outcome) : Prop :=
  ∃ n : ℕ, o = .success n ∧ int n = -1

def Harmless (f : Wrapper) (errno : ℤ) (marks : List Bool) (k : Stream' Outcome) : Prop :=
  match f with
  | .accept => true ∉ marks ∨ (∃ n, n < marks.idxOf true ∧ ¬ (k.get n).WouldBlock) ∨
      Comes Outcome.WouldBlock (fun o => o.Failed ∧ ¬ o.WouldBlock) k
  | .read _ | .write _ => marks.head? = some true → errno ≠ EINTR → k.head.Overlong →
      Comes (· = .failure EINTR) (fun o => o.Failed ∧ o ≠ .failure EINTR) k.tail
  | .readN _ | .writeN _ => True

variable {s t : Progress} {c : Call} {o : Outcome} {k : Stream' Outcome} {w : World}
  {errno : ℤ} {marks : List Bool} {a : Phase × World} {value : ℤ}

lemma settles_returned (h : s.phase = .returned value) :
    Settles Progress.round Progress.shown s k a ↔ s.shown = a :=
  settles_fixed fun _ => round_returned h

lemma settles_exited {message : String} (h : s.phase = .exited message) :
    Settles Progress.round Progress.shown s k a ↔ s.shown = a :=
  settles_fixed fun _ => round_exited h

lemma settles_iff_settles {b : Phase × World} :
    (∀ a, b = a ↔ Settles Progress.round Progress.shown s k a) ↔
      Settles Progress.round Progress.shown s k b := by
  constructor
  · intro h
    exact (h b).mp rfl
  · intro h a
    constructor
    · rintro rfl
      exact h
    · exact h.unique

section Accept

lemma accept_wouldBlock (h : s.phase = .running .accept) (ho : o.WouldBlock) :
    (s.round o).phase = .running .accept ∧ (s.round o).world = s.world := by
  rw [round_running h]
  rcases ho with rfl | rfl <;> exact ⟨rfl, rfl⟩

lemma accept_fails {e : ℤ} (h : s.phase = .running .accept)
    (he : ¬ (Outcome.failure e).WouldBlock) :
    (s.round (.failure e)).phase = .exited "Accept(): some unkown error\n" ∧
      (s.round (.failure e)).world = s.world := by
  have hne : ¬ (e = EAGAIN ∨ e = EWOULDBLOCK) := by
    rintro (rfl | rfl)
    · exact he (Or.inl rfl)
    · exact he (Or.inr rfl)
  rw [round_running h]
  refine ⟨?_, rfl⟩
  change Accept.body (-1) e = _
  rw [Accept.body, if_pos rfl, if_neg hne]

lemma accept_succeeds {n : ℕ} (h : s.phase = .running .accept) :
    (s.round (.success n)).phase = .returned n ∧ (s.round (.success n)).world = s.world := by
  have hne : (n : ℤ) ≠ -1 := by omega
  rw [round_running h]
  refine ⟨?_, rfl⟩
  change Accept.body n s.errno = _
  rw [Accept.body, if_neg hne]

lemma shown_eq {p : Phase} (h : s.phase = p ∧ s.world = w) : s.shown = (p, w) :=
  Prod.ext h.1 h.2

lemma accept_exits_iff (h : s.phase = .running .accept) :
    Settles Progress.round Progress.shown s k (.exited "Accept(): some unkown error\n", s.world) ↔
      Comes Outcome.WouldBlock (fun o => o.Failed ∧ ¬ o.WouldBlock) k := by
  constructor
  · rintro ⟨n, hn⟩
    replace hn := hn n le_rfl
    generalize hw : s.world = w at hn
    induction n generalizing s k with
    | zero => cases h.symm.trans (congrArg Prod.fst hn)
    | succ n ih =>
      rw [comes_head]
      by_cases hblock : k.head.WouldBlock
      · obtain ⟨hp, hw'⟩ := accept_wouldBlock h hblock
        exact Or.inr ⟨hblock, ih hp (hw'.trans hw) hn⟩
      · refine Or.inl ⟨?_, hblock⟩
        cases ho : k.head with
        | failure e => exact ⟨e, rfl⟩
        | success m =>
          have hp := (accept_succeeds (n := m) h).1
          rw [feed, ho, feed_fixed fun _ => round_returned hp] at hn
          cases hp.symm.trans (congrArg Prod.fst hn)
  · rintro ⟨n, hskip, ⟨e, he⟩, hblock⟩
    induction n generalizing s k with
    | zero =>
      rw [he] at hblock
      have hexit := accept_fails h hblock
      rw [settles_head, show k.head = .failure e from he, settles_exited hexit.1]
      exact shown_eq hexit
    | succ n ih =>
      obtain ⟨hp, hw⟩ := accept_wouldBlock h (hskip 0 n.succ_pos)
      rw [settles_head, ← hw]
      exact ih hp (fun m hm => hskip (m + 1) (Nat.succ_lt_succ hm)) hblock he

lemma harmless_accept (hblock : k.head.WouldBlock) :
    Harmless .accept errno (false :: marks) k ↔ Harmless .accept errno marks k.tail := by
  have hnot : ¬ (k.head.Failed ∧ ¬ k.head.WouldBlock) := fun h => h.2 hblock
  have hidx : (false :: marks).idxOf true = marks.idxOf true + 1 := by simp
  have hmem : true ∉ false :: marks ↔ true ∉ marks := by simp
  simp only [Harmless]
  rw [hmem, hidx, comes_head, or_iff_right hnot, and_iff_right hblock]
  refine or_congr_right (or_congr_left ?_)
  constructor
  · rintro ⟨n, hn, hdec⟩
    cases n with
    | zero => exact absurd hblock hdec
    | succ n => exact ⟨n, Nat.lt_of_succ_lt_succ hn, hdec⟩
  · rintro ⟨n, hn, hdec⟩
    exact ⟨n + 1, Nat.succ_lt_succ hn, hdec⟩

lemma accept_unnoticed_iff (h : s.phase = .running .accept) :
    (∀ a, Settles Progress.round Progress.shown s (interrupt (.failure EINTR) marks k) a ↔
      Settles Progress.round Progress.shown s k a) ↔ Harmless .accept errno marks k := by
  induction marks generalizing s k with
  | nil => exact iff_of_true (fun _ => Iff.rfl) (Or.inl List.not_mem_nil)
  | cons mark marks ih =>
    cases mark with
    | true =>
      have hintr : ¬ (Outcome.failure EINTR).WouldBlock := by
        rintro (h | h) <;> exact absurd (Outcome.failure.inj h) (by decide)
      have hexit := accept_fails h hintr
      have hnow : Harmless .accept errno (true :: marks) k ↔
          Comes Outcome.WouldBlock (fun o => o.Failed ∧ ¬ o.WouldBlock) k := by
        simp [Harmless]
      rw [hnow, ← accept_exits_iff h, ← settles_iff_settles]
      refine forall_congr' fun a => ?_
      rw [settles_head, interrupt, Stream'.head_cons, settles_exited hexit.1, shown_eq hexit]
    | false =>
      have hhead : ∀ a, (Settles Progress.round Progress.shown s
          (interrupt (.failure EINTR) (false :: marks) k) a ↔
            Settles Progress.round Progress.shown s k a) ↔
          (Settles Progress.round Progress.shown (s.round k.head)
            (interrupt (.failure EINTR) marks k.tail) a ↔
            Settles Progress.round Progress.shown (s.round k.head) k.tail a) := by
        intro a
        rw [settles_head, settles_head (k := k), interrupt, Stream'.head_cons, Stream'.tail_cons]
      rw [forall_congr' hhead]
      by_cases hblock : k.head.WouldBlock
      · rw [ih (accept_wouldBlock h hblock).1, harmless_accept hblock]
      · refine iff_of_true (fun a => ?_) (Or.inr (Or.inl ⟨0, ?_, hblock⟩))
        · cases ho : k.head with
          | failure e =>
            rw [ho] at hblock
            have hexit := (accept_fails h hblock).1
            rw [settles_exited hexit, settles_exited hexit]
          | success n =>
            have hret := (accept_succeeds (n := n) h).1
            rw [settles_returned hret, settles_returned hret]
        · simp

end Accept

section Transfers

lemma round_shown (hc : ∀ (n : ℕ) e e', c.body n e = c.body n e') (hs : s.phase = .running c)
    (ht : t.phase = .running c) (hw : s.world = t.world) :
    (s.round o).shown = (t.round o).shown := by
  rw [round_running hs, round_running ht]
  cases o with
  | success n => exact Prod.ext (hc n s.errno t.errno) (congrArg (c.transfer n) hw)
  | failure e => exact Prod.ext rfl hw

inductive Halfway (P : Call → Prop) (s : Progress) : Prop
  | going (c : Call) (phase : s.phase = .running c) (h : P c)
  | left (value : ℤ) (phase : s.phase = .returned value)

/-- A loop whose calls read `errno` after a failure only, and which an interruption leaves
where it was. -/
structure Steady (P : Call → Prop) : Prop where
  keeps : ∀ c ret e, P c → (∃ d, P d ∧ c.body ret e = .running d) ∨
    ∃ value, c.body ret e = .returned value
  blind : ∀ c, P c → ∀ (n : ℕ) e e', c.body n e = c.body n e'
  stays : ∀ c, P c → c.body (-1) EINTR = .running c

lemma Steady.settles {P : Call → Prop} (h : Steady P) (hs : Halfway P s) :
    Settles Progress.round Progress.shown s (interrupt (.failure EINTR) marks k) a ↔
      Settles Progress.round Progress.shown s k a := by
  apply settles_interrupt (I := Halfway P) ?_ ?_ ?_ hs
  · intro s o hs
    cases hs with
    | left value phase => exact .left value (by rw [round_returned phase, phase])
    | going c phase hc =>
      have hround := congrArg Progress.phase (round_running (o := o) phase)
      rcases h.keeps c o.value (o.errno s.errno) hc with ⟨d, hd, hbody⟩ | ⟨value, hbody⟩
      · exact .going d (hround.trans hbody) hd
      · exact .left value (hround.trans hbody)
  · intro s t o hs _ hst
    obtain ⟨hp, hw⟩ := Prod.mk.inj hst
    cases hs with
    | left value phase =>
      rw [round_returned phase, round_returned (hp.symm.trans phase), hst]
    | going c phase hc => exact round_shown (h.blind c hc) phase (hp.symm.trans phase) hw
  · intro s hs
    cases hs with
    | left value phase => rw [round_returned phase]
    | going c phase hc =>
      rw [round_running phase]
      exact Prod.ext ((h.stays c hc).trans phase.symm) rfl

lemma readN_steady : Steady fun c => ∃ d : ReadN, c = .readN d ∧ d.guard where
  keeps := by
    rintro _ ret e ⟨c, rfl, hg⟩
    cases hb : c.body ret e with
    | next d =>
      by_cases hd : d.guard
      · exact Or.inl ⟨_, ⟨d, rfl, hd⟩, by simp only [Call.body, hb, ReadN.enter, if_pos hd]⟩
      · exact Or.inr ⟨d.result, by simp only [Call.body, hb, ReadN.enter, if_neg hd]⟩
    | stop d => exact Or.inr ⟨d.result, by simp only [Call.body, hb]⟩
    | ret value => exact Or.inr ⟨value, by simp only [Call.body, hb]⟩
  blind := by
    rintro _ ⟨c, rfl, -⟩ n e e'
    have hneg : ¬ (n : ℤ) < 0 := by omega
    simp only [Call.body, ReadN.body, if_neg hneg]
  stays := by
    rintro _ ⟨c, rfl, hg⟩
    exact if_pos hg

lemma writeN_body_next {c d : WriteN} {ret e : ℤ} (h : c.body ret e = .next d) :
    ∃ n, d = c.advance n := by
  simp only [WriteN.body] at h
  split_ifs at h
  · exact ⟨0, (Flow.next.inj h).symm⟩
  · exact ⟨ret, (Flow.next.inj h).symm⟩

lemma advance_zero {c : WriteN} (hg : c.guard) (hc : c.nleft < 2 ^ 64) : c.advance 0 = c := by
  have hsize : size_t (c.nleft - 0) = c.nleft := by
    rw [sub_zero]
    exact Int.emod_eq_of_lt (le_of_lt hg) hc
  rw [WriteN.advance, hsize]
  rfl

lemma writeN_steady : Steady fun c => ∃ d : WriteN, c = .writeN d ∧ d.guard ∧ d.nleft < 2 ^ 64 where
  keeps := by
    rintro _ ret e ⟨c, rfl, -⟩
    cases hb : c.body ret e with
    | next d =>
      by_cases hd : d.guard
      · obtain ⟨n, hn⟩ := writeN_body_next hb
        have hlt : d.nleft < 2 ^ 64 := by
          rw [hn]
          exact Int.emod_lt_of_pos _ (by decide)
        exact Or.inl ⟨_, ⟨d, rfl, hd, hlt⟩, by simp only [Call.body, hb, WriteN.enter, if_pos hd]⟩
      · exact Or.inr ⟨d.result, by simp only [Call.body, hb, WriteN.enter, if_neg hd]⟩
    | stop d => exact Or.inr ⟨d.result, by simp only [Call.body, hb]⟩
    | ret value => exact Or.inr ⟨value, by simp only [Call.body, hb]⟩
  blind := by
    rintro _ ⟨c, rfl, -⟩ n e e'
    have hneg : ¬ (n : ℤ) < 0 := by omega
    simp only [Call.body, WriteN.body, hneg, false_and, if_false]
  stays := by
    rintro _ ⟨c, rfl, hg, hc⟩
    have hbody : c.body (-1) EINTR = .next c := by
      conv_rhs => rw [← advance_zero hg hc]
      rfl
    simp only [Call.body, hbody, WriteN.enter, if_pos hg]

lemma readN_halfway {sz : ℕ} :
    Halfway (fun c => ∃ d : ReadN, c = .readN d ∧ d.guard) ((Wrapper.readN sz).call w errno) := by
  have hphase : ((Wrapper.readN sz).call w errno).phase = (ReadN.call sz).enter := by
    rw [Wrapper.call, Wrapper.enter]
  by_cases hg : (ReadN.call sz).guard
  · exact .going _ (by rw [hphase, ReadN.enter, if_pos hg]) ⟨_, rfl, hg⟩
  · exact .left _ (by rw [hphase, ReadN.enter, if_neg hg])

lemma writeN_halfway {vptr : Object} :
    Halfway (fun c => ∃ d : WriteN, c = .writeN d ∧ d.guard ∧ d.nleft < 2 ^ 64)
      ((Wrapper.writeN vptr).call w errno) := by
  by_cases hg : (WriteN.call vptr vptr.size).guard
  · have hfits : vptr.size ≤ SSIZE_MAX := vptr.fits
    have hlt : ((vptr.size : ℕ) : ℤ) < 2 ^ 64 := by
      simp only [SSIZE_MAX] at hfits
      omega
    exact .going _ (if_pos hg) ⟨_, rfl, hg, hlt⟩
  · exact .left _ (if_neg hg)

end Transfers

section Retry

structure Plain (c : Call) (moved : World → ℕ) : Prop where
  body : ∀ ret e, c.body ret e = retry c ret e
  transfer : ∀ n w, moved (c.transfer n w) = moved w + n

lemma read_plain {sz : ℕ} : Plain (.read sz) World.taken where
  body _ _ := rfl
  transfer _ _ := rfl

lemma write_plain {sz : ℕ} : Plain (.write sz) fun w => w.outgoing.length where
  body _ _ := rfl
  transfer n w := by
    change (w.outgoing ++ load w.buf n).length = _
    rw [List.length_append, load_length]

variable {moved : World → ℕ}

lemma retry_interrupted (hc : Plain c moved) (h : s.phase = .running c) :
    s.round (.failure EINTR) = ⟨.running c, EINTR, s.world⟩ := by
  have hbody : c.body (-1) EINTR = .running c := by
    rw [hc.body]
    rfl
  exact round_body h hbody

lemma retry_fails (hc : Plain c moved) (h : s.phase = .running c) {e : ℤ} (he : e ≠ EINTR) :
    s.round (.failure e) = ⟨.returned (-1), e, s.world⟩ := by
  have hbody : c.body (-1) e = .returned (-1) := by
    rw [hc.body, retry, if_pos (by decide), if_neg he]
  exact round_body h hbody

lemma retry_succeeds (hc : Plain c moved) (h : s.phase = .running c) {n : ℕ} (hn : int n ≠ -1) :
    s.round (.success n) = ⟨.returned (int n), s.errno, c.transfer n s.world⟩ := by
  have hbody : c.body n s.errno = .returned (int n) := by
    rw [hc.body, retry, if_neg hn]
  exact round_body h hbody

lemma retry_overlong (hc : Plain c moved) (h : s.phase = .running c) {n : ℕ} (hn : int n = -1) :
    s.round (.success n) = ⟨if s.errno = EINTR then .running c else .returned (-1), s.errno,
      c.transfer n s.world⟩ := by
  have hbody : c.body n s.errno = if s.errno = EINTR then .running c else .returned (-1) := by
    rw [hc.body, retry, if_pos hn]
  exact round_body h hbody

inductive Retrying (c : Call) (s : Progress) : Prop
  | going (phase : s.phase = .running c) (errno : s.errno = EINTR)
  | left (value : ℤ) (phase : s.phase = .returned value)

lemma retry_round (hc : Plain c moved) (h : s.phase = .running c) : Retrying c (s.round o) := by
  cases o with
  | failure e =>
    by_cases he : e = EINTR
    · rw [he, retry_interrupted hc h]
      exact .going rfl rfl
    · rw [retry_fails hc h he]
      exact .left _ rfl
  | success n =>
    by_cases hn : int n = -1
    · rw [retry_overlong hc h hn]
      by_cases he : s.errno = EINTR
      · exact .going (if_pos he) he
      · exact .left (-1) (if_neg he)
    · rw [retry_succeeds hc h hn]
      exact .left _ rfl

lemma Retrying.round (hc : Plain c moved) (hs : Retrying c s) : Retrying c (s.round o) := by
  cases hs with
  | left value phase =>
    rw [round_returned phase]
    exact .left value phase
  | going phase _ => exact retry_round hc phase

lemma Retrying.settles (hc : Plain c moved) (hs : Retrying c s) :
    Settles Progress.round Progress.shown s (interrupt (.failure EINTR) marks k) a ↔
      Settles Progress.round Progress.shown s k a := by
  apply settles_interrupt (I := Retrying c) (fun s o hs => hs.round hc) ?_ ?_ hs
  · intro s t o hs ht hst
    obtain ⟨hp, hw⟩ := Prod.mk.inj hst
    cases hs with
    | left value phase => rw [round_returned phase, round_returned (hp.symm.trans phase), hst]
    | going phase herrno =>
      cases ht with
      | left value phase' => cases phase.symm.trans (hp.trans phase')
      | going phase' herrno' =>
        rw [round_running phase, round_running phase', herrno, herrno', hw]
  · intro s hs
    cases hs with
    | left value phase => rw [round_returned phase]
    | going phase herrno =>
      rw [retry_interrupted hc phase]
      exact Prod.ext phase.symm rfl

lemma Retrying.moved_le (hc : Plain c moved) (hs : Retrying c s) :
    moved s.world ≤ moved (s.round o).world := by
  cases hs with
  | left value phase => rw [round_returned phase]
  | going phase _ =>
    rw [round_running phase]
    cases o with
    | failure e => exact le_rfl
    | success n =>
      change moved s.world ≤ moved (c.transfer n s.world)
      rw [hc.transfer]
      exact Nat.le_add_right _ n

lemma Retrying.moved_feed (hc : Plain c moved) (hs : Retrying c s) (n : ℕ) :
    moved s.world ≤ moved (feed Progress.round s k n).world := by
  induction n generalizing s k with
  | zero => exact le_rfl
  | succ n ih => exact (hs.moved_le hc).trans (ih (hs.round hc))

lemma overlong_pos {n : ℕ} (hn : int n = -1) : 0 < n := by
  apply Nat.pos_of_ne_zero
  rintro rfl
  exact absurd hn (by decide)

lemma overlong_moves (hc : Plain c moved) (h : s.phase = .running c) (he : s.errno = EINTR)
    {m : ℕ} (hm : int m = -1) (n : ℕ) :
    moved s.world < moved (feed Progress.round (s.round (.success m)) k n).world := by
  have hgo := retry_overlong hc h hm
  rw [if_pos he] at hgo
  have hmove : moved (s.round (.success m)).world = moved s.world + m := by
    rw [hgo, ← hc.transfer]
  have hle := (retry_round (o := .success m) hc h).moved_feed (k := k) hc n
  have hpos := overlong_pos hm
  omega

lemma retry_fails_iff (hc : Plain c moved) (h : s.phase = .running c) (he : s.errno = EINTR) :
    Settles Progress.round Progress.shown s k (.returned (-1), s.world) ↔
      Comes (· = .failure EINTR) (fun o => o.Failed ∧ o ≠ .failure EINTR) k := by
  have hstay : s.round (.failure EINTR) = s := by
    rw [retry_interrupted hc h, ← h, ← he]
  constructor
  · rintro ⟨n, hn⟩
    replace hn := hn n le_rfl
    induction n generalizing k with
    | zero => cases h.symm.trans (congrArg Prod.fst hn)
    | succ n ih =>
      rw [comes_head]
      cases ho : k.head with
      | failure e =>
        by_cases hintr : e = EINTR
        · subst hintr
          rw [feed, ho, hstay] at hn
          exact Or.inr ⟨rfl, ih hn⟩
        · exact Or.inl ⟨⟨e, rfl⟩, fun heq => hintr (Outcome.failure.inj heq)⟩
      | success m =>
        exfalso
        by_cases hm : int m = -1
        · rw [feed, ho] at hn
          have hlt := overlong_moves (k := k.tail) hc h he hm n
          have hworld : (feed Progress.round (s.round (.success m)) k.tail n).world = s.world :=
            congrArg Prod.snd hn
          rw [hworld] at hlt
          exact lt_irrefl _ hlt
        · have hret := retry_succeeds hc h hm
          rw [feed, ho, feed_fixed fun _ => round_returned (congrArg Progress.phase hret),
            hret] at hn
          exact hm (Phase.returned.inj (congrArg Prod.fst hn))
  · rintro ⟨n, hskip, ⟨e, hfail⟩, hne⟩
    induction n generalizing k with
    | zero =>
      have hend := retry_fails hc h fun heq => hne (hfail.trans (congrArg Outcome.failure heq))
      rw [settles_head, show k.head = .failure e from hfail, hend, settles_returned rfl]
      rfl
    | succ n ih =>
      rw [settles_head, show k.head = .failure EINTR from hskip 0 n.succ_pos, hstay]
      exact ih (fun m hm => hskip (m + 1) (Nat.succ_lt_succ hm)) hne hfail

lemma retry_unnoticed_iff (hc : Plain c moved) (h : s.phase = .running c) :
    (∀ a, Settles Progress.round Progress.shown s (interrupt (.failure EINTR) marks k) a ↔
      Settles Progress.round Progress.shown s k a) ↔
    (marks.head? = some true → s.errno ≠ EINTR → k.head.Overlong →
      Comes (· = .failure EINTR) (fun o => o.Failed ∧ o ≠ .failure EINTR) k.tail) := by
  by_cases he : s.errno = EINTR
  · exact iff_of_true (fun a => Retrying.settles hc (.going h he)) fun _ hne => absurd he hne
  cases marks with
  | nil => exact iff_of_true (fun _ => Iff.rfl) nofun
  | cons mark marks =>
    cases mark with
    | false =>
      refine iff_of_true (fun a => ?_) nofun
      rw [settles_head, settles_head (k := k), interrupt, Stream'.head_cons, Stream'.tail_cons]
      exact (retry_round hc h).settles hc
    | true =>
      have hintr := retry_interrupted hc h
      have hgoing : Retrying c (s.round (.failure EINTR)) := retry_round hc h
      have hhead : ∀ a, (Settles Progress.round Progress.shown s
          (interrupt (.failure EINTR) (true :: marks) k) a ↔
            Settles Progress.round Progress.shown s k a) ↔
          (Settles Progress.round Progress.shown (s.round k.head) k.tail a ↔
            Settles Progress.round Progress.shown ((s.round (.failure EINTR)).round k.head) k.tail
              a) := by
        intro a
        rw [settles_head, interrupt, Stream'.head_cons, Stream'.tail_cons, hgoing.settles hc,
          settles_head, settles_head (s := s)]
        exact iff_comm
      rw [forall_congr' hhead, hintr]
      cases ho : k.head with
      | failure e =>
        have hsame : s.round (.failure e) =
            Progress.round ⟨.running c, EINTR, s.world⟩ (.failure e) := by
          rw [round_running h, round_running rfl]
          rfl
        refine iff_of_true (fun a => by rw [hsame]) ?_
        rintro - - ⟨n, hn, -⟩
        cases hn
      | success n =>
        by_cases hn : int n = -1
        · have hlong : (Outcome.success n).Overlong := ⟨n, rfl, hn⟩
          have hret := retry_overlong hc h hn
          rw [if_neg he] at hret
          have hgo : Progress.round ⟨.running c, EINTR, s.world⟩ (.success n) =
              ⟨.running c, EINTR, c.transfer n s.world⟩ :=
            (retry_overlong hc rfl hn).trans (by rw [if_pos rfl])
          refine Iff.trans ?_ ⟨fun hcomes _ _ _ => hcomes, fun hall => hall rfl he hlong⟩
          rw [hret, hgo,
            ← retry_fails_iff (s := ⟨.running c, EINTR, c.transfer n s.world⟩) hc rfl rfl,
            ← settles_iff_settles]
          refine forall_congr' fun a => ?_
          rw [settles_returned rfl]
          rfl
        · refine iff_of_true (fun a => ?_) ?_
          · rw [retry_succeeds hc h hn, retry_succeeds hc rfl hn, settles_returned rfl,
              settles_returned rfl]
            rfl
          · rintro - - ⟨m, hm, hlong⟩
            rw [← Outcome.success.inj hm] at hlong
            exact absurd hlong hn

end Retry

/-- Insertions are noticed in two cases only: `accept` is interrupted before it has an
outcome, and a count that is `-1` as an `int` is judged by a stale `errno`. -/
theorem unnoticed_iff_harmless (f : Wrapper) (w : World) (errno : ℤ) (marks : List Bool)
    (k : Stream' Outcome) : Unnoticed f w errno marks k ↔ Harmless f errno marks k := by
  cases f with
  | accept => exact accept_unnoticed_iff rfl
  | read sz => exact retry_unnoticed_iff read_plain rfl
  | write sz => exact retry_unnoticed_iff write_plain rfl
  | readN sz => exact iff_of_true (fun a => readN_steady.settles readN_halfway) trivial
  | writeN vptr => exact iff_of_true (fun a => writeN_steady.settles writeN_halfway) trivial

theorem accept_interrupted : ¬ Unnoticed .accept ⟨[], 0, fun _ => 0, []⟩ 0 [true]
    (Stream'.const (.success 5)) := by
  intro h
  have hret : Settles Progress.round Progress.shown
      (Wrapper.accept.call ⟨[], 0, fun _ => 0, []⟩ 0) (Stream'.const (.success 5))
      (.returned 5, ⟨[], 0, fun _ => 0, []⟩) :=
    settles_head.mpr ((settles_returned rfl).mpr rfl)
  have hexit := settles_head.mp ((h _).mpr hret)
  cases (settles_exited rfl).mp hexit

end UnixProgramming.HSocket
