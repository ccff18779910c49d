import UnixProgramming.ThreadServer.Steps

/-! The stop message of the multi-thread server, over the cuts of a client's stream into
the chunks that `read` returns and the contents of the array `cont`. -/

namespace UnixProgramming.ThreadServer

open Library Library.Transition

/-- The array is neither cleared nor terminated. -/
def overlay (cont chunk : List UInt8) : List UInt8 :=
  chunk ++ cont.drop chunk.length

def readings (t : ℕ) : List UInt8 → List (List UInt8) → List Label
  | _, [] => []
  | cont, chunk :: chunks =>
    .read t (.data chunk (cont.drop chunk.length)) :: .write t ::
      readings t (overlay cont chunk) chunks

structure Reading (s : State) (t : ℕ) (w : Worker) : Prop where
  alive : s.alive = true
  worker : s.threads t = some w
  pc : w.pc = .read

structure Cuts (chunks : List (List UInt8)) (stream : List UInt8) : Prop where
  sizes : ∀ chunk ∈ chunks, 0 < chunk.length ∧ chunk.length ≤ 64
  whole : chunks.flatten = stream

section Decision

variable (lfd : ℤ) (inherited : Finset ℤ)

/-- The worker leaves its loop because of the message, at the latest with the last chunk. -/
def Stops (s : State) (t : ℕ) (cont : List UInt8) (chunks : List (List UInt8)) : Prop :=
  ∃ ls s' v, ls <+: readings t cont chunks ∧ (system lfd inherited).Run s ls s' ∧
    s'.threads t = some v ∧ v.pc = .clear

/-- The decision is the same for every cut of the messages' stream and every content of
the array, and one of the messages is the stop message. -/
structure Decided (s : State) (t : ℕ) (messages : List (List UInt8)) : Prop where
  same : ∀ chunks chunks' cont cont', Cuts chunks messages.flatten →
    Cuts chunks' messages.flatten → cont.length = 1024 → cont'.length = 1024 →
    (Stops lfd inherited s t cont chunks ↔ Stops lfd inherited s t cont' chunks')
  sent : ∀ chunks cont, Cuts chunks messages.flatten → cont.length = 1024 →
    Stops lfd inherited s t cont chunks → stopPassword ++ [0] ∈ messages

end Decision

def stops : List UInt8 → List (List UInt8) → Bool
  | _, [] => false
  | cont, chunk :: chunks =>
    strcmpEqual stopPassword (overlay cont chunk) || stops (overlay cont chunk) chunks

variable {lfd : ℤ} {inherited : Finset ℤ} {s s' : State} {t : ℕ} {w v : Worker}
  {cont chunk stream : List UInt8} {chunks messages : List (List UInt8)} {b : UInt8}

section Runs

lemma step_read (h : Reading s t w) (hc : 0 < chunk.length ∧ chunk.length ≤ 64) :
    step s (.read t (.data chunk (cont.drop chunk.length))) = some (s.setWorker t { w with
      pc := if strcmpEqual stopPassword (overlay cont chunk) then .clear else .reply }) := by
  have hp : (ReadResult.data chunk (cont.drop chunk.length)).possible = true := by
    simp [ReadResult.possible, hc]
  simp only [step, h.alive, h.worker, Bool.true_eq_false, if_false, Option.bind_some, readStep,
    h.pc, hp, and_self, if_true]
  rfl

def replied (s : State) (t : ℕ) (w : Worker) : State :=
  (s.setWorker t { w with pc := .reply }).setWorker t { w with pc := .read }

lemma replied_reading (h : Reading s t w) : Reading (replied s t w) t w := by
  have hw : { w with pc := .read } = w := by rw [← h.pc]
  refine ⟨h.alive, ?_, h.pc⟩
  simp only [replied, State.setWorker_threads, Function.update_self, hw]

lemma step_reply (h : Reading s t w) :
    step (s.setWorker t { w with pc := .reply }) (.write t) = some (replied s t w) := by
  have ha : (s.setWorker t { w with pc := .reply }).alive = true := h.alive
  have hw : (s.setWorker t { w with pc := .reply }).threads t = some { w with pc := .reply } :=
    Function.update_self t _ _
  simp only [step, ha, hw, Bool.true_eq_false, if_false, Option.bind_some, writeStep, if_true]
  rfl

lemma stops_nil (h : Reading s t w) : ¬ Stops lfd inherited s t cont [] := by
  rintro ⟨ls, s', v, hls, hr, hv, hpc⟩
  obtain rfl := List.prefix_nil.mp hls
  cases hr with
  | nil =>
    obtain rfl := Option.some.inj (h.worker.symm.trans hv)
    cases h.pc.symm.trans hpc

lemma stops_cons (h : Reading s t w) (hc : 0 < chunk.length ∧ chunk.length ≤ 64) :
    Stops lfd inherited s t cont (chunk :: chunks) ↔
      strcmpEqual stopPassword (overlay cont chunk) = true ∨
        Stops lfd inherited (replied s t w) t (overlay cont chunk) chunks := by
  have hread : (system lfd inherited).step s (.read t (.data chunk (cont.drop chunk.length))) = _ :=
    step_read h hc
  have hwrite : (system lfd inherited).step (s.setWorker t { w with pc := .reply }) (.write t) =
      some (replied s t w) := step_reply h
  by_cases hstop : strcmpEqual stopPassword (overlay cont chunk) = true
  · rw [if_pos hstop] at hread
    refine iff_of_true ⟨[.read t (.data chunk (cont.drop chunk.length))], _, _, ?_,
      .cons hread (.nil _), Function.update_self t _ _, rfl⟩ (Or.inl hstop)
    exact List.cons_prefix_cons.mpr ⟨rfl, List.nil_prefix⟩
  · rw [if_neg hstop] at hread
    rw [or_iff_right hstop]
    constructor
    · rintro ⟨ls, s', v, hls, hr, hv, hpc⟩
      cases hr with
      | nil =>
        obtain rfl := Option.some.inj (h.worker.symm.trans hv)
        cases h.pc.symm.trans hpc
      | cons he hr =>
        obtain ⟨rfl, hrest⟩ := List.cons_prefix_cons.mp hls
        cases hread.symm.trans he
        cases hr with
        | nil =>
          obtain rfl := Option.some.inj ((Function.update_self t _ _).symm.trans hv)
          cases hpc
        | cons he hr =>
          obtain ⟨rfl, hlast⟩ := List.cons_prefix_cons.mp hrest
          cases hwrite.symm.trans he
          exact ⟨_, s', v, hlast, hr, hv, hpc⟩
    · rintro ⟨ls, s', v, hls, hr, hv, hpc⟩
      refine ⟨_ :: _ :: ls, s', v, ?_, .cons hread (.cons hwrite hr), hv, hpc⟩
      exact List.cons_prefix_cons.mpr ⟨rfl, List.cons_prefix_cons.mpr ⟨rfl, hls⟩⟩

lemma stops_iff (h : Reading s t w)
    (hc : ∀ chunk ∈ chunks, 0 < chunk.length ∧ chunk.length ≤ 64) :
    Stops lfd inherited s t cont chunks ↔ stops cont chunks = true := by
  induction chunks generalizing s cont with
  | nil => exact iff_of_false (stops_nil h) Bool.false_ne_true
  | cons chunk chunks ih =>
    rw [stops_cons h (hc chunk List.mem_cons_self), stops, Bool.or_eq_true,
      ih (replied_reading h) fun c hm => hc c (List.mem_cons_of_mem _ hm)]

end Runs

section Bytes

def secret : List UInt8 :=
  (stopPassword ++ [0]).tail

lemma strcmp_cons {cont : List UInt8} : strcmpEqual stopPassword (b :: cont) = true ↔
    b = 83 ∧ secret <+: cont := by
  change (83 :: secret).isPrefixOf (b :: cont) = true ↔ _
  rw [List.isPrefixOf_iff_prefix, List.cons_prefix_cons, eq_comm]

lemma stops_mem (hc : ∀ chunk ∈ chunks, 0 < chunk.length ∧ chunk.length ≤ 64)
    (hs : stops cont chunks = true) : 83 ∈ chunks.flatten := by
  induction chunks generalizing cont with
  | nil => cases hs
  | cons chunk chunks ih =>
    rw [stops, Bool.or_eq_true] at hs
    rw [List.flatten_cons, List.mem_append]
    rcases hs with hs | hs
    · cases chunk with
      | nil => cases (hc [] List.mem_cons_self).1
      | cons b bs =>
        obtain ⟨rfl, -⟩ := strcmp_cons.mp hs
        exact Or.inl List.mem_cons_self
    · exact Or.inr (ih (fun c hm => hc c (List.mem_cons_of_mem _ hm)) hs)

def single (stream : List UInt8) : List (List UInt8) :=
  stream.map fun b => [b]

lemma single_cuts : Cuts (single stream) stream where
  sizes chunk hc := by
    obtain ⟨b, -, rfl⟩ := List.mem_map.mp hc
    exact ⟨Nat.one_pos, by simp⟩
  whole := List.flatMap_def.symm.trans (List.flatMap_singleton' stream)

lemma single_misses {a : UInt8} : stops (a :: 0 :: cont) (single stream) = false := by
  induction stream generalizing a with
  | nil => rfl
  | cons b stream ih =>
    have hover : overlay (a :: 0 :: cont) [b] = b :: 0 :: cont := rfl
    have hcmp : strcmpEqual stopPassword (b :: 0 :: cont) = false := by
      rw [Bool.eq_false_iff]
      intro hs
      have hsecret : 69 :: secret.tail <+: 0 :: cont := (strcmp_cons.mp hs).2
      exact absurd (List.cons_prefix_cons.mp hsecret).1 (by decide)
    rw [single, List.map_cons, stops, hover, hcmp, Bool.false_or]
    exact ih

/-- An array that holds the rest of the message is completed by its first character. -/
lemma single_stops {a : UInt8} (h : 83 ∈ stream) :
    stops (a :: (secret ++ cont)) (single stream) = true := by
  induction stream generalizing a with
  | nil => cases h
  | cons b stream ih =>
    have hover : overlay (a :: (secret ++ cont)) [b] = b :: (secret ++ cont) := rfl
    rw [single, List.map_cons, stops, hover, Bool.or_eq_true]
    by_cases hb : b = 83
    · exact Or.inl (strcmp_cons.mpr ⟨hb, List.prefix_append _ _⟩)
    · exact Or.inr (ih ((List.mem_cons.mp h).resolve_left (Ne.symm hb)))

end Bytes

/-- The one kind of stream that is decided without regard to its cuts and to the array is
that in which the message cannot even begin. -/
theorem decided_iff (h : Reading s t w) :
    Decided lfd inherited s t messages ↔ 83 ∉ messages.flatten := by
  constructor
  · rintro ⟨hsame, -⟩ hmem
    have hzero : (0 :: 0 :: List.replicate 1022 (0 : UInt8)).length = 1024 := by
      simp only [List.length_cons, List.length_replicate]
    have hrest : (0 :: (secret ++ List.replicate 1003 (0 : UInt8))).length = 1024 := by
      simp only [List.length_cons, List.length_append, List.length_replicate]
      rfl
    have hiff := hsame _ _ _ _ single_cuts single_cuts hzero hrest
    rw [stops_iff h single_cuts.sizes, stops_iff h single_cuts.sizes, single_stops hmem,
      single_misses] at hiff
    exact absurd (hiff.mpr rfl) Bool.false_ne_true
  · intro hmem
    have hnone : ∀ chunks cont, Cuts chunks messages.flatten →
        ¬ Stops lfd inherited s t cont chunks := by
      intro chunks cont hc hs
      apply hmem
      rw [← hc.whole]
      exact stops_mem hc.sizes ((stops_iff h hc.sizes).mp hs)
    exact ⟨fun _ _ _ _ hc hc' _ _ => iff_of_false (hnone _ _ hc) (hnone _ _ hc'),
      fun _ _ hc _ hs => absurd hs (hnone _ _ hc)⟩

def greeted : List Label :=
  [.main, .accept 5 7, .create, .main, .main, .worker 0]

lemma greeted_reading : ∃ s, (system 3 {0, 1, 2}).Reachable s ∧
    Reading s 0 ⟨0, some (.connection 0), .read⟩ := by
  have hrun : ((system 3 {0, 1, 2}).exec (start 3 {0, 1, 2}) greeted).map
      (fun s => (s.alive, s.threads 0)) = some (true, some ⟨0, some (.connection 0), .read⟩) := rfl
  obtain ⟨s, hs, he⟩ := System.Reachable.observe rfl hrun
  obtain ⟨ha, ht⟩ := Prod.mk.inj he
  exact ⟨s, hs, ha, ht, rfl⟩

theorem decided_iff_greeted : ∃ s, (system 3 {0, 1, 2}).Reachable s ∧
    Reading s 0 ⟨0, some (.connection 0), .read⟩ ∧ Decided 3 {0, 1, 2} s 0 [[104, 105, 10]] := by
  obtain ⟨s, hs, h⟩ := greeted_reading
  exact ⟨s, hs, h, (decided_iff h).mpr (by decide)⟩

/-- The same message, sent to a cleared array, stops the worker when it arrives in one
piece and not when it arrives in two. -/
theorem stop_message_cut : ∃ s, (system 3 {0, 1, 2}).Reachable s ∧
    Reading s 0 ⟨0, some (.connection 0), .read⟩ ∧
    Stops 3 {0, 1, 2} s 0 (List.replicate 1024 0) [stopPassword ++ [0]] ∧
    ¬ Stops 3 {0, 1, 2} s 0 (List.replicate 1024 0)
      [stopPassword.take 11, stopPassword.drop 11 ++ [0]] ∧
    ¬ Decided 3 {0, 1, 2} s 0 [stopPassword ++ [0]] := by
  obtain ⟨s, hs, h⟩ := greeted_reading
  have hone : Cuts [stopPassword ++ [0]] [stopPassword ++ [0]].flatten :=
    ⟨by decide, rfl⟩
  have htwo : Cuts [stopPassword.take 11, stopPassword.drop 11 ++ [0]]
      [stopPassword ++ [0]].flatten := ⟨by decide, by decide⟩
  have hstops : Stops 3 {0, 1, 2} s 0 (List.replicate 1024 0) [stopPassword ++ [0]] :=
    (stops_iff h hone.sizes).mpr (by decide)
  have hgoes : ¬ Stops 3 {0, 1, 2} s 0 (List.replicate 1024 0)
      [stopPassword.take 11, stopPassword.drop 11 ++ [0]] :=
    (stops_iff h htwo.sizes).not.mpr (by decide)
  refine ⟨s, hs, h, hstops, hgoes, fun hd => hgoes ?_⟩
  exact (hd.same _ _ _ _ hone htwo List.length_replicate List.length_replicate).mp hstops

end UnixProgramming.ThreadServer
