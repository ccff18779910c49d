import UnixProgramming.Library.Rounds
import UnixProgramming.HSocket.Calls

/-! What `ReadN` and `WriteN` make of the outcomes of their calls: the bytes they move
and the count they report. -/

namespace UnixProgramming.HSocket

open Library Library.Transition

structure Buffer where
  size : ℕ
  fits : size ≤ SSIZE_MAX
  memory : ℕ → UInt8

def Outcome.count : Outcome → ℕ
  | .success n => n
  | .failure _ => 0

def total : List Outcome → ℕ
  | [] => 0
  | o :: ls => o.count + total ls

def Outcome.Error (o : Outcome) : Prop :=
  ∃ e, e ≠ EINTR ∧ o = .failure e

def Outcome.Refusal (o : Outcome) : Prop :=
  o.Error ∨ o = .success 0

/-- A loop that counts the bytes it moves: `On p` while it runs, `Good p` or `Bad p` once
it has been left, and only a fatal outcome leads to `Bad`. -/
structure Tally (Fatal : Outcome → Prop) (On Good Bad : ℕ → Progress → Prop) (sz : ℕ) :
    Prop where
  running : ∀ p s, On p s → p ≤ sz ∧ ∃ c, s.phase = .running c
  good : ∀ p s, Good p s → s.Returned
  bad : ∀ p s, Bad p s → s.Returned
  round : ∀ p s o, On p s → s.Allows o →
    Fatal o ∧ Bad (p + o.count) (s.round o) ∨ ¬ Fatal o ∧ Good (p + o.count) (s.round o) ∨
      ¬ Fatal o ∧ On (p + o.count) (s.round o) ∧ (o = .failure EINTR ∨ 0 < o.count)

inductive Sofar (Fatal : Outcome → Prop) (On Good Bad : ℕ → Progress → Prop) (p : ℕ)
    (ls : List Outcome) (s : Progress) : Prop
  | failed (fatal : ∃ o ∈ ls, Fatal o) (h : Bad p s)
  | complete (clean : ∀ o ∈ ls, ¬ Fatal o) (h : Good p s)
  | going (clean : ∀ o ∈ ls, ¬ Fatal o) (h : On p s)

namespace Tally

variable {Fatal : Outcome → Prop} {On Good Bad : ℕ → Progress → Prop} {sz p n : ℕ}
  {s t s₀ : Progress} {ls : List Outcome} {k : Stream' Outcome}

lemma run (h : Tally Fatal On Good Bad sz) (hs : On p s) (hr : (calls s₀).Run s ls t) :
    Sofar Fatal On Good Bad (p + total ls) ls t := by
  induction hr generalizing p with
  | nil s => exact .going (by simp) hs
  | @cons s t u o ls he hr ih =>
    obtain ⟨c, hc, ha, rfl⟩ := calls_step he
    have hallows : s.Allows o := by
      intro d hd
      obtain rfl := Phase.running.inj (hc.symm.trans hd)
      exact ha
    rw [total, ← Nat.add_assoc]
    rcases h.round p s o hs hallows with ⟨hf, hbad⟩ | ⟨hf, hgood⟩ | ⟨hf, hon, -⟩
    · obtain ⟨value, hv⟩ := h.bad _ _ hbad
      obtain ⟨rfl, rfl⟩ := calls_ended hv hr
      exact .failed ⟨o, List.mem_singleton_self o, hf⟩ hbad
    · obtain ⟨value, hv⟩ := h.good _ _ hgood
      obtain ⟨rfl, rfl⟩ := calls_ended hv hr
      exact .complete (by simpa using hf) hgood
    · cases ih hon with
      | failed fatal hbad =>
        obtain ⟨o', ho', hf'⟩ := fatal
        exact .failed ⟨o', List.mem_cons_of_mem o ho', hf'⟩ hbad
      | complete clean hgood => exact .complete (List.forall_mem_cons.mpr ⟨hf, clean⟩) hgood
      | going clean hon => exact .going (List.forall_mem_cons.mpr ⟨hf, clean⟩) hon

lemma returned_later {m : ℕ} (hn : (feed Progress.round s k n).Returned) (h : n ≤ m) :
    (feed Progress.round s k m).Returned := by
  induction m, h using Nat.le_induction with
  | base => exact hn
  | succ m _ ih =>
    obtain ⟨value, hv⟩ := ih
    exact ⟨value, by rw [feed_succ, round_returned hv, hv]⟩

lemma feed_round (h : Tally Fatal On Good Bad sz)
    (hk : (feed Progress.round s k n).Allows (k.get n)) (hon : On p (feed Progress.round s k n)) :
    (feed Progress.round s k (n + 1)).Returned ∨
      ∃ q, On q (feed Progress.round s k (n + 1)) ∧ (k.get n = .failure EINTR ∨ p < q) := by
  rw [feed_succ]
  rcases h.round p _ _ hon hk with ⟨-, hbad⟩ | ⟨-, hgood⟩ | ⟨-, hon', hmove⟩
  · exact Or.inl (h.bad _ _ hbad)
  · exact Or.inl (h.good _ _ hgood)
  · exact Or.inr ⟨_, hon', hmove.imp_right fun hpos => by omega⟩

lemma feed_cases (h : Tally Fatal On Good Bad sz) (hs : On p s ∨ s.Returned)
    (hk : ∀ n, (feed Progress.round s k n).Allows (k.get n)) (n : ℕ) :
    (∃ q, On q (feed Progress.round s k n)) ∨ (feed Progress.round s k n).Returned := by
  induction n with
  | zero => exact hs.imp_left fun hon => ⟨p, hon⟩
  | succ n ih =>
    rcases ih with ⟨q, hon⟩ | hret
    · cases h.feed_round (hk n) hon with
      | inl hret => exact Or.inr hret
      | inr hon =>
        obtain ⟨r, hon, -⟩ := hon
        exact Or.inl ⟨r, hon⟩
    · exact Or.inr (returned_later hret n.le_succ)

lemma ends (h : Tally Fatal On Good Bad sz) (hs : On p s ∨ s.Returned)
    (hk : ∀ n, (feed Progress.round s k n).Allows (k.get n))
    (hfin : ∃ n, ∀ m, n ≤ m → k.get m ≠ .failure EINTR) :
    ∃ n, (feed Progress.round s k n).Returned := by
  obtain ⟨n, hn⟩ := hfin
  have hlast : ∀ left m q, n ≤ m → On q (feed Progress.round s k m) → sz - q = left →
      ∃ l, (feed Progress.round s k l).Returned := by
    intro left
    induction left using Nat.strong_induction_on with
    | _ left ih =>
      intro m q hm hon hleft
      cases h.feed_round (hk m) hon with
      | inl hret => exact ⟨m + 1, hret⟩
      | inr hon' =>
        obtain ⟨r, hr, hmove⟩ := hon'
        have hlt : q < r := hmove.resolve_left (hn m hm)
        have hle := (h.running r _ hr).1
        exact ih (sz - r) (by omega) (m + 1) r (Nat.le_succ_of_le hm) hr rfl
  rcases h.feed_cases hs hk n with ⟨q, hon⟩ | hret
  · exact hlast (sz - q) n q le_rfl hon rfl
  · exact ⟨n, hret⟩

end Tally

section Reading

def readNCall (b : Buffer) (incoming : List UInt8) (errno : ℤ) (sz : ℕ) : Progress :=
  (Wrapper.readN sz).call ⟨incoming, 0, b.memory, []⟩ errno

structure Filled (b : Buffer) (incoming : List UInt8) (p : ℕ) (w : World) : Prop where
  source : w.incoming = incoming
  taken : w.taken = p
  le : p ≤ incoming.length
  data : load w.buf p = incoming.take p
  rest : ∀ i, p ≤ i → w.buf i = b.memory i

variable {b : Buffer} {incoming : List UInt8} {sz p n : ℕ} {w : World} {s t s₀ : Progress}
  {c : ReadN} {o : Outcome} {ls : List Outcome}

lemma Filled.receive (h : Filled b incoming p w) (hn : p + n ≤ incoming.length) :
    Filled b incoming (p + n) (w.receive p n) := by
  have hlen : ((w.incoming.drop w.taken).take n).length = n := by
    rw [h.source, h.taken, List.length_take, List.length_drop]
    omega
  refine ⟨h.source, congrArg (· + n) h.taken, hn, ?_, fun i hi => ?_⟩
  · have hload : load (store w.buf p ((w.incoming.drop w.taken).take n))
        (p + ((w.incoming.drop w.taken).take n).length) =
        load w.buf p ++ (w.incoming.drop w.taken).take n := load_store
    rw [hlen, h.data] at hload
    change load (store w.buf p ((w.incoming.drop w.taken).take n)) (p + n) = _
    rw [hload, List.take_add, h.source, h.taken]
  · have hstore : (w.receive p n).buf i = w.buf i := by
      apply store_after
      rwa [hlen]
    rw [hstore, h.rest i (by omega)]

structure Reading (b : Buffer) (incoming : List UInt8) (sz : ℕ) (c : ReadN) (s : Progress) :
    Prop where
  phase : s.phase = .running (.readN c)
  sound : c.Sound
  sz : c.sz = sz
  guard : c.guard
  filled : Filled b incoming c.ptr s.world

lemma Reading.room (h : Reading b incoming sz c s) : 0 < c.request ∧ c.ptr + c.request ≤ sz := by
  have hguard := h.guard
  have hleft := h.sound.left
  have hsz := h.sz
  simp only [ReadN.guard] at hguard
  rw [h.sound.request_eq]
  omega

structure Complete (b : Buffer) (incoming : List UInt8) (sz p : ℕ) (s : Progress) : Prop where
  phase : s.phase = .returned p
  filled : Filled b incoming p s.world
  eq : p = min sz incoming.length

structure Failed (b : Buffer) (incoming : List UInt8) (sz p : ℕ) (s : Progress) : Prop where
  phase : s.phase = .returned (-1)
  filled : Filled b incoming p s.world
  lt : p < sz

lemma enter_cases (hs : c.Sound) (hsz : c.sz = sz) (hp : s.phase = c.enter)
    (hf : Filled b incoming c.ptr s.world) :
    Reading b incoming sz c s ∨ Complete b incoming sz c.ptr s := by
  by_cases hg : c.guard
  · refine Or.inl ⟨?_, hs, hsz, hg, hf⟩
    rw [hp, ReadN.enter, if_pos hg]
  · have hptr := hs.finished hg
    have hle := hf.le
    refine Or.inr ⟨?_, hf, by omega⟩
    rw [hp, ReadN.enter, if_neg hg, hs.result_eq]

lemma reading_round (h : Reading b incoming sz c s) (ha : (Call.readN c).Allows s.world o) :
    o.Error ∧ Failed b incoming sz (c.ptr + o.count) (s.round o) ∨
    ¬ o.Error ∧ Complete b incoming sz (c.ptr + o.count) (s.round o) ∨
    ¬ o.Error ∧ ∃ c', Reading b incoming sz c' (s.round o) ∧ c'.ptr = c.ptr + o.count ∧
      (o = .failure EINTR ∨ 0 < o.count) := by
  have hroom := h.room
  have hround := round_running (o := o) h.phase
  cases o with
  | failure e =>
    by_cases he : e = EINTR
    · subst he
      refine Or.inr (Or.inr ⟨?_, c, ⟨?_, h.sound, h.sz, h.guard, ?_⟩, rfl, Or.inl rfl⟩)
      · rintro ⟨e, hne, he⟩
        exact hne (Outcome.failure.inj he).symm
      · rw [hround]
        exact if_pos h.guard
      · rw [hround]
        exact h.filled
    · refine Or.inl ⟨⟨e, he, rfl⟩, ?_, ?_, by rw [Outcome.count]; omega⟩
      · rw [hround]
        simp [Call.body, ReadN.body, Outcome.value, Outcome.errno, he]
      · rw [hround]
        exact h.filled
  | success n =>
    have hno : ¬ (Outcome.success n).Error := by
      rintro ⟨e, -, he⟩
      cases he
    obtain ⟨hreq, hin, hend⟩ := ha
    rw [h.filled.taken, h.filled.source] at hin hend
    rw [h.sound.request_eq] at hreq
    have hfilled := h.filled.receive hin
    cases Nat.eq_zero_or_pos n with
    | inl hn =>
      subst hn
      have hsz := h.sz
      refine Or.inr (Or.inl ⟨hno, ?_, ?_, ?_⟩)
      · rw [hround]
        exact congrArg Phase.returned h.sound.result_eq
      · rw [hround]
        exact hfilled
      · have hlast := (hend rfl).resolve_left (by omega)
        rw [Outcome.count]
        omega
    | inr hn =>
      have hsound := h.sound.advance (Int.natCast_nonneg n) hreq
      have hneg : ¬ (n : ℤ) < 0 := by omega
      have hbody : (Call.readN c).body n s.errno = (c.advance n).enter := by
        simp [Call.body, ReadN.body, hn.ne', hneg]
      have hp : (s.round (.success n)).phase = (c.advance n).enter := by
        rw [hround]
        exact hbody
      have hw : Filled b incoming (c.advance n).ptr (s.round (.success n)).world := by
        rw [hround]
        exact hfilled
      cases enter_cases hsound h.sz hp hw with
      | inl hreading => exact Or.inr (Or.inr ⟨hno, _, hreading, rfl, Or.inr hn⟩)
      | inr hcomplete => exact Or.inr (Or.inl ⟨hno, hcomplete⟩)

lemma readNCall_cases (hsz : sz ≤ b.size) (errno : ℤ) :
    Reading b incoming sz (ReadN.call sz) (readNCall b incoming errno sz) ∨
      Complete b incoming sz 0 (readNCall b incoming errno sz) := by
  have hsound : (ReadN.call sz).Sound := ReadN.call_sound (hsz.trans b.fits)
  have hfilled : Filled b incoming (ReadN.call sz).ptr (readNCall b incoming errno sz).world :=
    ⟨rfl, rfl, Nat.zero_le incoming.length, rfl, fun _ _ => rfl⟩
  have hphase : (readNCall b incoming errno sz).phase = (ReadN.call sz).enter := by
    rw [readNCall, Wrapper.call, Wrapper.enter]
  exact enter_cases hsound (by rw [ReadN.call]) hphase hfilled

lemma readN_tally : Tally Outcome.Error
    (fun p s => ∃ c : ReadN, c.ptr = p ∧ Reading b incoming sz c s)
    (Complete b incoming sz) (Failed b incoming sz) sz where
  running := by
    rintro p s ⟨c, rfl, h⟩
    exact ⟨h.sz ▸ h.sound.le, _, h.phase⟩
  good p s h := ⟨p, h.phase⟩
  bad p s h := ⟨-1, h.phase⟩
  round := by
    rintro p s o ⟨c, rfl, h⟩ ha
    refine (reading_round h (ha _ h.phase)).imp_right fun hclean => hclean.imp_right ?_
    rintro ⟨hno, c', hc', hptr, hmove⟩
    exact ⟨hno, ⟨c', hptr, hc'⟩, hmove⟩

lemma readN_sofar (hsz : sz ≤ b.size) {errno : ℤ}
    (hr : (calls s₀).Run (readNCall b incoming errno sz) ls t) :
    Sofar Outcome.Error (fun p s => ∃ c : ReadN, c.ptr = p ∧ Reading b incoming sz c s)
      (Complete b incoming sz) (Failed b incoming sz) (total ls) ls t := by
  cases readNCall_cases hsz errno with
  | inl h =>
    rw [← Nat.zero_add (total ls)]
    exact readN_tally.run ⟨_, rfl, h⟩ hr
  | inr h =>
    obtain ⟨rfl, rfl⟩ := calls_ended h.phase hr
    exact .complete (by simp) h

theorem readN_correct (b : Buffer) (incoming : List UInt8) (errno : ℤ) (sz : ℕ)
    (hsz : sz ≤ b.size) :
    (∀ ls t, (calls (readNCall b incoming errno sz)).Run (readNCall b incoming errno sz) ls t →
      (∀ c, t.phase = .running c → ∃ d : ReadN, c = .readN d ∧ d.ptr = t.world.taken ∧
        0 < d.request ∧ d.ptr + d.request ≤ sz) ∧
      ∀ value, t.phase = .returned value →
        (value = -1 ↔ ∃ o ∈ ls, o.Error) ∧
        ((∀ o ∈ ls, ¬ o.Error) → value = min sz incoming.length ∧
          load t.world.buf value.toNat = incoming.take value.toNat ∧
          ∀ i, value.toNat ≤ i → t.world.buf i = b.memory i)) ∧
    ∀ k : Stream' Outcome,
      (∀ n, (feed Progress.round (readNCall b incoming errno sz) k n).Allows (k.get n)) →
      (∃ n, ∀ m, n ≤ m → k.get m ≠ .failure EINTR) →
      ∃ n, (feed Progress.round (readNCall b incoming errno sz) k n).Returned := by
  refine ⟨fun ls t hr => ⟨fun c hc => ?_, fun value hv => ?_⟩, ?_⟩
  · cases readN_sofar hsz hr with
    | failed _ h => cases h.phase.symm.trans hc
    | complete _ h => cases h.phase.symm.trans hc
    | going _ h =>
      obtain ⟨d, -, h⟩ := h
      obtain rfl := Phase.running.inj (h.phase.symm.trans hc)
      exact ⟨d, rfl, h.filled.taken.symm, h.room⟩
  · cases readN_sofar hsz hr with
    | failed fatal h =>
      obtain rfl := Phase.returned.inj (h.phase.symm.trans hv)
      obtain ⟨o, ho, herr⟩ := fatal
      exact ⟨⟨fun _ => ⟨o, ho, herr⟩, fun _ => rfl⟩, fun clean => absurd herr (clean o ho)⟩
    | complete clean h =>
      obtain rfl := Phase.returned.inj (h.phase.symm.trans hv)
      refine ⟨⟨fun hneg => ?_, fun ⟨o, ho, herr⟩ => absurd herr (clean o ho)⟩, fun _ => ?_⟩
      · omega
      · rw [Int.toNat_natCast]
        exact ⟨by rw [← h.eq], h.filled.data, h.filled.rest⟩
    | going _ h =>
      obtain ⟨d, -, h⟩ := h
      cases h.phase.symm.trans hv
  · intro k hk hfin
    have htally : Tally _ _ (Complete b incoming sz) _ sz := readN_tally
    apply htally.ends (p := 0) ?_ hk hfin
    exact (readNCall_cases hsz errno).imp (fun h => ⟨_, rfl, h⟩) fun h => ⟨_, h.phase⟩

def hall : Buffer :=
  ⟨4, by decide, fun _ => 0⟩

theorem readN_correct_two : ∃ t,
    (calls (readNCall hall [104, 105, 33] 0 2)).Run (readNCall hall [104, 105, 33] 0 2)
      [.success 1, .failure EINTR, .success 1] t ∧
    t.phase = .returned 2 ∧ load t.world.buf 2 = [104, 105] ∧
    ∃ n, (feed Progress.round (readNCall hall [104, 105, 33] 0 2)
      (Stream'.const (.failure EAGAIN)) n).Returned := by
  have hrun : ((calls (readNCall hall [104, 105, 33] 0 2)).exec (readNCall hall [104, 105, 33] 0 2)
      [.success 1, .failure EINTR, .success 1]).map Progress.phase = some (.returned 2) := by
    decide
  obtain ⟨t, he, hv⟩ := Option.map_eq_some_iff.mp hrun
  have hr := System.run_iff_exec.mpr he
  have hclean : ∀ o ∈ [Outcome.success 1, .failure EINTR, .success 1], ¬ o.Error := by
    intro o ho herr
    obtain ⟨e, hne, rfl⟩ := herr
    simp [hne] at ho
  have h := readN_correct hall [104, 105, 33] 0 2 (by decide)
  refine ⟨t, hr, hv, (((h.1 _ t hr).2 2 hv).2 hclean).2.1, h.2 _ ?_ ⟨0, fun m _ hm => ?_⟩⟩
  · intro n c _
    cases c <;> trivial
  · exact absurd (Outcome.failure.inj hm) (by decide)

end Reading

section Writing

def writeNCall (vptr : Object) (w : World) (errno : ℤ) : Progress :=
  (Wrapper.writeN vptr).call w errno

variable {vptr : Object} {w : World} {p : ℕ} {s t s₀ : Progress} {c : WriteN} {o : Outcome}
  {ls : List Outcome}

structure Writing (vptr : Object) (w : World) (c : WriteN) (s : Progress) : Prop where
  phase : s.phase = .running (.writeN c)
  sound : c.Sound
  object : c.vptr = vptr
  guard : c.guard
  put : s.world.outgoing = w.outgoing ++ vptr.bytes.take c.ptr

structure Handed (vptr : Object) (w : World) (p : ℕ) (s : Progress) : Prop where
  phase : s.phase = .returned vptr.size
  put : s.world.outgoing = w.outgoing ++ vptr.bytes.take p
  eq : p = vptr.size

structure Refused (vptr : Object) (w : World) (p : ℕ) (s : Progress) : Prop where
  phase : s.phase = .returned (-1)
  put : s.world.outgoing = w.outgoing ++ vptr.bytes.take p
  lt : p < vptr.size

lemma Writing.lt (h : Writing vptr w c s) : c.ptr < vptr.size := by
  have hguard := h.guard
  have hleft := h.sound.left
  rw [h.object] at hleft
  simp only [WriteN.guard] at hguard
  omega

lemma enterWrite_cases (hs : c.Sound) (hv : c.vptr = vptr) (hp : s.phase = c.enter)
    (hput : s.world.outgoing = w.outgoing ++ vptr.bytes.take c.ptr) :
    Writing vptr w c s ∨ Handed vptr w c.ptr s := by
  by_cases hg : c.guard
  · refine Or.inl ⟨?_, hs, hv, hg, hput⟩
    rw [hp, WriteN.enter, if_pos hg]
  · refine Or.inr ⟨?_, hput, hv ▸ hs.finished hg⟩
    rw [hp, WriteN.enter, if_neg hg, hs.result_eq, hv]

lemma writing_put (h : Writing vptr w c s) {n : ℕ} :
    (s.world.send (c.request.take n)).outgoing = w.outgoing ++ vptr.bytes.take (c.ptr + n) := by
  rw [World.send, h.put, h.sound.request_eq, h.object, List.append_assoc, List.take_add]

lemma writing_round (h : Writing vptr w c s) (ha : (Call.writeN c).Allows s.world o) :
    o.Refusal ∧ Refused vptr w (c.ptr + o.count) (s.round o) ∨
    ¬ o.Refusal ∧ Handed vptr w (c.ptr + o.count) (s.round o) ∨
    ¬ o.Refusal ∧ ∃ c', Writing vptr w c' (s.round o) ∧ c'.ptr = c.ptr + o.count ∧
      (o = .failure EINTR ∨ 0 < o.count) := by
  have hround := round_running (o := o) h.phase
  have hpos : 0 < c.nleft := h.guard
  cases o with
  | failure e =>
    by_cases he : e = EINTR
    · subst he
      have hsound := h.sound.advance le_rfl hpos.le
      have hno : ¬ (Outcome.failure EINTR).Refusal := by
        rintro (⟨e, hne, he⟩ | he)
        · exact hne (Outcome.failure.inj he).symm
        · cases he
      have hp : (s.round (.failure EINTR)).phase = (c.advance 0).enter := by
        rw [hround]
        simp [Call.body, WriteN.body, Outcome.value, Outcome.errno]
      have hput : (s.round (.failure EINTR)).world.outgoing =
          w.outgoing ++ vptr.bytes.take (c.advance 0).ptr := by
        rw [hround]
        exact h.put
      cases enterWrite_cases hsound h.object hp hput with
      | inl hwriting => exact Or.inr (Or.inr ⟨hno, _, hwriting, rfl, Or.inl rfl⟩)
      | inr hhanded => exact Or.inr (Or.inl ⟨hno, hhanded⟩)
    · refine Or.inl ⟨Or.inl ⟨e, he, rfl⟩, ?_, ?_, h.lt⟩
      · rw [hround]
        simp [Call.body, WriteN.body, Outcome.value, Outcome.errno, he]
      · rw [hround]
        exact h.put
  | success n =>
    have hput : (s.round (.success n)).world.outgoing =
        w.outgoing ++ vptr.bytes.take (c.ptr + n) := by
      rw [hround]
      exact writing_put h
    have hle : (n : ℤ) ≤ c.nleft := by
      rw [← h.sound.request_length]
      exact_mod_cast ha
    cases Nat.eq_zero_or_pos n with
    | inl hn =>
      subst hn
      refine Or.inl ⟨Or.inr rfl, ?_, hput, h.lt⟩
      rw [hround]
      simp [Call.body, WriteN.body, Outcome.value]
    | inr hn =>
      have hno : ¬ (Outcome.success n).Refusal := by
        rintro (⟨e, -, he⟩ | he)
        · cases he
        · exact hn.ne' (Outcome.success.inj he)
      have hsound := h.sound.advance (Int.natCast_nonneg n) hle
      have hneg : ¬ (n : ℤ) ≤ 0 := by omega
      have hp : (s.round (.success n)).phase = (c.advance n).enter := by
        rw [hround]
        simp [Call.body, WriteN.body, Outcome.value, hn.ne']
      cases enterWrite_cases hsound h.object hp hput with
      | inl hwriting => exact Or.inr (Or.inr ⟨hno, _, hwriting, rfl, Or.inr hn⟩)
      | inr hhanded => exact Or.inr (Or.inl ⟨hno, hhanded⟩)

lemma writeN_tally : Tally Outcome.Refusal
    (fun p s => ∃ c : WriteN, c.ptr = p ∧ Writing vptr w c s)
    (Handed vptr w) (Refused vptr w) vptr.size where
  running := by
    rintro p s ⟨c, rfl, h⟩
    exact ⟨h.lt.le, _, h.phase⟩
  good p s h := ⟨vptr.size, h.phase⟩
  bad p s h := ⟨-1, h.phase⟩
  round := by
    rintro p s o ⟨c, rfl, h⟩ ha
    refine (writing_round h (ha _ h.phase)).imp_right fun hclean => hclean.imp_right ?_
    rintro ⟨hno, c', hc', hptr, hmove⟩
    exact ⟨hno, ⟨c', hptr, hc'⟩, hmove⟩

lemma writeNCall_cases (errno : ℤ) :
    Writing vptr w (WriteN.call vptr vptr.size) (writeNCall vptr w errno) ∨
      Handed vptr w 0 (writeNCall vptr w errno) := by
  have hphase : (writeNCall vptr w errno).phase = (WriteN.call vptr vptr.size).enter := by
    rw [writeNCall, Wrapper.call, Wrapper.enter]
  have hput : (writeNCall vptr w errno).world.outgoing =
      w.outgoing ++ vptr.bytes.take (WriteN.call vptr vptr.size).ptr := by
    rw [WriteN.call, List.take_zero, List.append_nil, writeNCall, Wrapper.call]
  exact enterWrite_cases (WriteN.call_sound vptr) rfl hphase hput

lemma writeN_sofar {errno : ℤ} (hr : (calls s₀).Run (writeNCall vptr w errno) ls t) :
    Sofar Outcome.Refusal (fun p s => ∃ c : WriteN, c.ptr = p ∧ Writing vptr w c s)
      (Handed vptr w) (Refused vptr w) (total ls) ls t := by
  cases writeNCall_cases errno with
  | inl h =>
    rw [← Nat.zero_add (total ls)]
    exact writeN_tally.run ⟨_, rfl, h⟩ hr
  | inr h =>
    obtain ⟨rfl, rfl⟩ := calls_ended h.phase hr
    exact .complete (by simp) h

theorem writeN_correct (vptr : Object) (w : World) (errno : ℤ) :
    (∀ ls t, (calls (writeNCall vptr w errno)).Run (writeNCall vptr w errno) ls t →
      (total ls ≤ vptr.size ∧ t.world.outgoing = w.outgoing ++ vptr.bytes.take (total ls)) ∧
      (∀ c, t.phase = .running c → ∃ d : WriteN, c = .writeN d ∧ 0 < d.nleft ∧
        d.nleft = vptr.size - total ls ∧ d.request = vptr.bytes.drop (total ls)) ∧
      ∀ value, t.phase = .returned value →
        (value = vptr.size ↔ total ls = vptr.size) ∧ (value = vptr.size ∨ value = -1)) ∧
    ∀ k : Stream' Outcome,
      (∀ n, (feed Progress.round (writeNCall vptr w errno) k n).Allows (k.get n)) →
      (∃ n, ∀ m, n ≤ m → k.get m ≠ .failure EINTR) →
      ∃ n, (feed Progress.round (writeNCall vptr w errno) k n).Returned := by
  constructor
  · intro ls t hr
    cases writeN_sofar hr with
    | failed _ h =>
      refine ⟨⟨h.lt.le, h.put⟩, fun c hc => ?_, fun value hv => ?_⟩
      · cases h.phase.symm.trans hc
      · obtain rfl := Phase.returned.inj (h.phase.symm.trans hv)
        have hlt := h.lt
        exact ⟨by omega, Or.inr rfl⟩
    | complete _ h =>
      refine ⟨⟨h.eq.le, h.put⟩, fun c hc => ?_, fun value hv => ?_⟩
      · cases h.phase.symm.trans hc
      · obtain rfl := Phase.returned.inj (h.phase.symm.trans hv)
        exact ⟨⟨fun _ => h.eq, fun _ => rfl⟩, Or.inl rfl⟩
    | going _ h =>
      obtain ⟨d, hd, h⟩ := h
      rw [← hd]
      refine ⟨⟨h.lt.le, h.put⟩, fun c hc => ?_, fun value hv => ?_⟩
      · obtain rfl := Phase.running.inj (h.phase.symm.trans hc)
        have hleft := h.sound.left
        have hrequest := h.sound.request_eq
        rw [h.object] at hleft hrequest
        exact ⟨d, rfl, h.guard, hleft, hrequest⟩
      · cases h.phase.symm.trans hv
  · intro k hk hfin
    have htally : Tally _ _ (Handed vptr w) _ vptr.size := writeN_tally
    apply htally.ends (p := 0) ?_ hk hfin
    exact (writeNCall_cases errno).imp (fun h => ⟨_, rfl, h⟩) fun h => ⟨_, h.phase⟩

def greeted : Object :=
  ⟨[111, 107], by decide⟩

def pipe : World :=
  ⟨[], 0, fun _ => 0, []⟩

theorem writeN_correct_two : ∃ t,
    (calls (writeNCall greeted pipe 0)).Run (writeNCall greeted pipe 0)
      [.success 1, .failure EINTR, .success 1] t ∧
    t.phase = .returned 2 ∧ t.world.outgoing = [111, 107] ∧
    ∃ n, (feed Progress.round (writeNCall greeted pipe 0)
      (Stream'.const (.failure EAGAIN)) n).Returned := by
  have hrun : ((calls (writeNCall greeted pipe 0)).exec (writeNCall greeted pipe 0)
      [.success 1, .failure EINTR, .success 1]).map Progress.phase = some (.returned 2) := by
    decide
  obtain ⟨t, he, hv⟩ := Option.map_eq_some_iff.mp hrun
  have hr := System.run_iff_exec.mpr he
  have h := writeN_correct greeted pipe 0
  refine ⟨t, hr, hv, (h.1 _ t hr).1.2, h.2 _ ?_ ⟨0, fun m _ hm => ?_⟩⟩
  · intro n c _
    cases c <;> trivial
  · exact absurd (Outcome.failure.inj hm) (by decide)

end Writing

section Tracking

/-- What a caller takes the result for: `-1` stands for no byte. -/
def reported (value : ℤ) : ℕ :=
  if value = -1 then 0 else value.toNat

variable {ls : List Outcome}

@[simp] lemma reported_natCast {p : ℕ} : reported p = p := by
  have hne : (p : ℤ) ≠ -1 := by omega
  rw [reported, if_neg hne, Int.toNat_natCast]

lemma total_eq_zero : total ls = 0 ↔ ∀ o ∈ ls, o.count = 0 := by
  induction ls with
  | nil => simp [total]
  | cons o ls ih => simp [total, ih]

lemma tracked_iff {P : Outcome → Prop} (h : ∃ o ∈ ls, P o) :
    total ls = reported (-1) ↔ (∀ o ∈ ls, ¬ P o) ∨ ∀ o ∈ ls, o.count = 0 := by
  rw [← total_eq_zero]
  constructor
  · exact Or.inr
  · intro htotal
    apply htotal.resolve_left
    intro clean
    obtain ⟨o, ho, hP⟩ := h
    exact clean o ho hP

/-- A count is lost exactly when a call fails after others have moved bytes. -/
theorem transfers_tracked (b : Buffer) (incoming : List UInt8) (errno : ℤ) (sz : ℕ)
    (hsz : sz ≤ b.size) (vptr : Object) (w : World) :
    (∀ ls t value,
      (calls (readNCall b incoming errno sz)).Run (readNCall b incoming errno sz) ls t →
      t.phase = .returned value →
      (t.world.taken = reported value ↔
        (∀ o ∈ ls, ¬ o.Error) ∨ ∀ o ∈ ls, o.count = 0)) ∧
    ∀ ls t value, (calls (writeNCall vptr w errno)).Run (writeNCall vptr w errno) ls t →
      t.phase = .returned value →
      (t.world.outgoing.length = w.outgoing.length + reported value ↔
        (∀ o ∈ ls, ¬ o.Refusal) ∨ ∀ o ∈ ls, o.count = 0) := by
  constructor
  · intro ls t value hr hv
    cases readN_sofar hsz hr with
    | failed fatal h =>
      obtain rfl := Phase.returned.inj (h.phase.symm.trans hv)
      rw [h.filled.taken]
      exact tracked_iff fatal
    | complete clean h =>
      obtain rfl := Phase.returned.inj (h.phase.symm.trans hv)
      rw [h.filled.taken, reported_natCast]
      exact iff_of_true rfl (Or.inl clean)
    | going _ h =>
      obtain ⟨d, -, h⟩ := h
      cases h.phase.symm.trans hv
  · intro ls t value hr hv
    cases writeN_sofar hr with
    | failed fatal h =>
      obtain rfl := Phase.returned.inj (h.phase.symm.trans hv)
      have hlen : (vptr.bytes.take (total ls)).length = total ls := by
        rw [List.length_take]
        exact Nat.min_eq_left h.lt.le
      rw [h.put, List.length_append, hlen, Nat.add_left_cancel_iff]
      exact tracked_iff fatal
    | complete clean h =>
      obtain rfl := Phase.returned.inj (h.phase.symm.trans hv)
      rw [h.put, h.eq, List.length_append, reported_natCast, Object.size, List.take_length]
      exact iff_of_true rfl (Or.inl clean)
    | going _ h =>
      obtain ⟨d, -, h⟩ := h
      cases h.phase.symm.trans hv

theorem partial_read_lost : ∃ t,
    (calls (readNCall hall [104, 105] 0 4)).Run (readNCall hall [104, 105] 0 4)
      [.success 2, .failure EAGAIN] t ∧
    t.phase = .returned (-1) ∧ t.world.taken ≠ reported (-1) := by
  have hrun : ((calls (readNCall hall [104, 105] 0 4)).exec (readNCall hall [104, 105] 0 4)
      [.success 2, .failure EAGAIN]).map (fun t => (t.phase, t.world.taken)) =
      some (.returned (-1), 2) := by decide
  obtain ⟨t, he, hv⟩ := Option.map_eq_some_iff.mp hrun
  obtain ⟨hphase, htaken⟩ := Prod.mk.inj hv
  exact ⟨t, System.run_iff_exec.mpr he, hphase, by rw [htaken]; decide⟩

theorem transfers_tracked_two :
    (∃ t : Progress, t.phase = .returned 2 ∧ t.world.taken = reported 2) ∧
    ∃ t : Progress, t.phase = .returned (-1) ∧ t.world.outgoing.length = 0 + reported (-1) := by
  have h := transfers_tracked hall [104, 105, 33] 0 2 (by decide) greeted pipe
  constructor
  · have hrun : ((calls (readNCall hall [104, 105, 33] 0 2)).exec
        (readNCall hall [104, 105, 33] 0 2)
        [.success 1, .failure EINTR, .success 1]).map Progress.phase = some (.returned 2) := by
      decide
    obtain ⟨t, he, hv⟩ := Option.map_eq_some_iff.mp hrun
    have hclean : ∀ o ∈ [Outcome.success 1, .failure EINTR, .success 1], ¬ o.Error := by
      rintro o ho ⟨e, hne, rfl⟩
      simp [hne] at ho
    exact ⟨t, hv, (h.1 _ t 2 (System.run_iff_exec.mpr he) hv).mpr (Or.inl hclean)⟩
  · have hrun : ((calls (writeNCall greeted pipe 0)).exec (writeNCall greeted pipe 0)
        [.failure EINTR, .failure EAGAIN]).map Progress.phase = some (.returned (-1)) := by
      decide
    obtain ⟨t, he, hv⟩ := Option.map_eq_some_iff.mp hrun
    have hnone : ∀ o ∈ [Outcome.failure EINTR, .failure EAGAIN], o.count = 0 := by decide
    exact ⟨t, hv, (h.2 _ t (-1) (System.run_iff_exec.mpr he) hv).mpr (Or.inr hnone)⟩

end Tracking

end UnixProgramming.HSocket
