import UnixProgramming.Library.Transition
import UnixProgramming.Library.Stream
import UnixProgramming.Library.Memory
import UnixProgramming.HSocket.Model
import Mathlib.Tactic

/-! One side passes messages to `WriteN`, the other asks `ReadN` for their lengths,
in the same order, and every underlying call may be short or interrupted. -/

namespace UnixProgramming.HSocket

open Library Library.Transition

namespace Kernel

def write (s : Stream UInt8) (request : List UInt8) (nwritten errno : ℤ) :
    Option (Stream UInt8) :=
  if nwritten = -1 ∧ errno = EINTR then some s
  else if 0 < nwritten ∧ nwritten ≤ request.length then
    s.write (request.take nwritten.toNat)
  else none

def read (s : Stream UInt8) (request nread errno : ℤ) : Option (List UInt8 × Stream UInt8) :=
  if nread = -1 ∧ errno = EINTR then some ([], s)
  else if nread = 0 then if s.AtEnd then some ([], s) else none
  else if nread ≤ request then s.read nread.toNat
  else none

end Kernel

structure Delivery where
  sz : ℕ
  ret : ℤ
  data : List UInt8
  deriving DecidableEq

structure State where
  stream : Stream UInt8
  outbox : List Object
  writing : Option WriteN
  sent : List ℤ
  inbox : List ℕ
  reading : Option ReadN
  buf : ℕ → UInt8
  received : List Delivery

def start (ms : List Object) (buf : ℕ → UInt8) : State where
  stream := .empty
  outbox := ms
  writing := none
  sent := []
  inbox := ms.map Object.size
  reading := none
  buf := buf
  received := []

inductive Label
  | writeN
  | write (nwritten errno : ℤ)
  | writeReturns
  | close
  | readN
  | read (nread errno : ℤ)
  | readReturns
  deriving DecidableEq, Repr

def State.returnWrite (s : State) (value : ℤ) : State :=
  { s with writing := none, sent := s.sent ++ [value] }

def State.returnRead (s : State) (c : ReadN) (value : ℤ) : State :=
  { s with
    reading := none
    received := s.received ++ [⟨c.sz, value, load s.buf value.toNat⟩] }

def callWrite (s : State) : Option State :=
  match s.outbox with
  | m :: ms =>
    if s.writing.isNone ∧ s.stream.closed = false then
      some { s with outbox := ms, writing := some (.call m m.size) }
    else none
  | [] => none

def writeStep (s : State) (nwritten errno : ℤ) : Option State :=
  s.writing.bind fun c =>
    if c.guard then
      (Kernel.write s.stream c.request nwritten errno).map fun stream =>
        match c.body nwritten errno with
        | .next c' => { s with stream := stream, writing := some c' }
        | .stop c' => { s with stream := stream }.returnWrite c'.result
        | .ret value => { s with stream := stream }.returnWrite value
    else none

def writeReturns (s : State) : Option State :=
  s.writing.bind fun c => if c.guard then none else some (s.returnWrite c.result)

def callRead (s : State) : Option State :=
  match s.inbox with
  | n :: ns =>
    if s.reading.isNone then some { s with inbox := ns, reading := some (.call n) } else none
  | [] => none

def readStep (s : State) (nread errno : ℤ) : Option State :=
  s.reading.bind fun c =>
    if c.guard then
      (Kernel.read s.stream c.request nread errno).map fun r =>
        let t := { s with stream := r.2, buf := store s.buf c.ptr r.1 }
        match c.body nread errno with
        | .next c' => { t with reading := some c' }
        | .stop c' => t.returnRead c' c'.result
        | .ret value => t.returnRead c value
    else none

def readReturns (s : State) : Option State :=
  s.reading.bind fun c => if c.guard then none else some (s.returnRead c c.result)

def step (s : State) : Label → Option State
  | .writeN => callWrite s
  | .write nwritten errno => writeStep s nwritten errno
  | .writeReturns => writeReturns s
  | .close => some { s with stream := s.stream.close }
  | .readN => callRead s
  | .read nread errno => readStep s nread errno
  | .readReturns => readReturns s

def system (ms : List Object) : System State Label where
  initial s := ∃ buf, s = start ms buf
  step := step

variable {s s' : State} {ms : List Object} {ns : List ℕ} {nwritten nread errno : ℤ}

lemma callWrite_cases (he : callWrite s = some s') : ∃ m rest, s.outbox = m :: rest ∧
    s.writing = none ∧ s' = { s with outbox := rest, writing := some (.call m m.size) } := by
  cases ho : s.outbox with
  | nil => simp [callWrite, ho] at he
  | cons m rest =>
    simp only [callWrite, ho, Option.ite_none_right_eq_some, Option.some.injEq] at he
    obtain ⟨⟨hnone, -⟩, rfl⟩ := he
    exact ⟨m, rest, rfl, Option.isNone_iff_eq_none.mp hnone, rfl⟩

lemma callRead_cases (he : callRead s = some s') : ∃ n rest, s.inbox = n :: rest ∧
    s.reading = none ∧ s' = { s with inbox := rest, reading := some (.call n) } := by
  cases hin : s.inbox with
  | nil => simp [callRead, hin] at he
  | cons n rest =>
    simp only [callRead, hin, Option.ite_none_right_eq_some, Option.some.injEq] at he
    obtain ⟨hnone, rfl⟩ := he
    exact ⟨n, rest, rfl, Option.isNone_iff_eq_none.mp hnone, rfl⟩

lemma writeReturns_cases (he : writeReturns s = some s') :
    ∃ c, s.writing = some c ∧ ¬ c.guard ∧ s' = s.returnWrite c.result := by
  obtain ⟨c, hc, he⟩ := Option.bind_eq_some_iff.mp he
  simp only [Option.ite_none_left_eq_some, Option.some.injEq] at he
  exact ⟨c, hc, he.1, he.2.symm⟩

lemma readReturns_cases (he : readReturns s = some s') :
    ∃ c, s.reading = some c ∧ ¬ c.guard ∧ s' = s.returnRead c c.result := by
  obtain ⟨c, hc, he⟩ := Option.bind_eq_some_iff.mp he
  simp only [Option.ite_none_left_eq_some, Option.some.injEq] at he
  exact ⟨c, hc, he.1, he.2.symm⟩

lemma writeStep_cases (he : writeStep s nwritten errno = some s') :
    ∃ c, s.writing = some c ∧ c.guard ∧ (s' = { s with writing := some (c.advance 0) } ∨
      ∃ stream, 0 < nwritten ∧ nwritten ≤ c.request.length ∧
        s.stream.write (c.request.take nwritten.toNat) = some stream ∧
        s' = { s with stream := stream, writing := some (c.advance nwritten) }) := by
  obtain ⟨c, hc, he⟩ := Option.bind_eq_some_iff.mp he
  simp only [Option.ite_none_right_eq_some] at he
  obtain ⟨hg, he⟩ := he
  obtain ⟨stream, hw, rfl⟩ := Option.map_eq_some_iff.mp he
  refine ⟨c, hc, hg, ?_⟩
  simp only [Kernel.write] at hw
  split_ifs at hw with hintr hshort
  · obtain ⟨rfl, herr⟩ := hintr
    obtain rfl := Option.some.inj hw
    exact Or.inl (by simp [WriteN.body, herr])
  · obtain ⟨hpos, hle⟩ := hshort
    exact Or.inr ⟨stream, hpos, hle, hw, by simp [WriteN.body, not_le.mpr hpos]⟩

lemma readStep_cases (he : readStep s nread errno = some s') :
    ∃ c, s.reading = some c ∧ c.guard ∧ (s' = s ∨
      s.stream.AtEnd ∧ s' = s.returnRead c c.result ∨
      ∃ bs stream, 0 < nread ∧ nread ≤ c.request ∧
        s.stream.read nread.toNat = some (bs, stream) ∧
        s' = { s with
          stream := stream
          buf := store s.buf c.ptr bs
          reading := some (c.advance nread) }) := by
  obtain ⟨c, hc, he⟩ := Option.bind_eq_some_iff.mp he
  simp only [Option.ite_none_right_eq_some] at he
  obtain ⟨hg, he⟩ := he
  obtain ⟨⟨bs, stream⟩, hr, rfl⟩ := Option.map_eq_some_iff.mp he
  refine ⟨c, hc, hg, ?_⟩
  simp only [Kernel.read] at hr
  split_ifs at hr with hintr hzero hend hle
  · obtain ⟨rfl, herr⟩ := hintr
    obtain ⟨rfl, rfl⟩ := Prod.mk.inj (Option.some.inj hr)
    exact Or.inl (by simp [ReadN.body, herr, ← hc])
  · obtain ⟨rfl, rfl⟩ := Prod.mk.inj (Option.some.inj hr)
    exact Or.inr (Or.inl ⟨hend, by simp [ReadN.body, hzero]⟩)
  · have hpos : 0 < nread := by
      obtain ⟨⟨hk, -⟩, -⟩ := Stream.read_eq_some.mp hr
      omega
    exact Or.inr (Or.inr ⟨bs, stream, hpos, hle, hr, by
      simp [ReadN.body, not_lt.mpr hpos.le, hpos.ne']⟩)

lemma getElem?_concat {β : Type*} {l : List β} {a b : β} {i : ℕ}
    (h : (l ++ [a])[i]? = some b) : l[i]? = some b ∨ i = l.length ∧ b = a := by
  rcases Nat.lt_trichotomy i l.length with hi | hi | hi
  · rw [List.getElem?_append_left hi] at h
    exact Or.inl h
  · rw [hi, List.getElem?_concat_length] at h
    exact Or.inr ⟨hi, (Option.some.inj h).symm⟩
  · rw [List.getElem?_eq_none (by simp; omega)] at h
    cases h

section Writer

structure Wrote (ms : List Object) (s : State) : Prop where
  outbox : s.outbox = ms.drop (s.sent.length + s.writing.elim 0 fun _ => 1)
  call : ∀ c, s.writing = some c → c.Sound ∧ ms[s.sent.length]? = some c.vptr
  sent : ∀ (i : ℕ) (ret : ℤ), s.sent[i]? = some ret → ∃ m : Object, ms[i]? = some m ∧ ret = m.size
  written : s.stream.written = (ms.map Object.bytes).flatten.take
    (offset (ms.map Object.size) s.sent.length + s.writing.elim 0 WriteN.ptr)

lemma sizes (ms : List Object) : (ms.map Object.bytes).map List.length = ms.map Object.size := by
  rw [List.map_map]
  rfl

lemma start_wrote (ms : List Object) (buf : ℕ → UInt8) : Wrote ms (start ms buf) where
  outbox := by simp [start]
  call c hc := by cases hc
  sent i ret hi := by simp [start] at hi
  written := by simp [start]

lemma Wrote.congr (h : Wrote ms s) (ho : s'.outbox = s.outbox) (hw : s'.writing = s.writing)
    (hs : s'.sent = s.sent) (hb : s'.stream.written = s.stream.written) : Wrote ms s' where
  outbox := by rw [ho, hs, hw, h.outbox]
  call c hc := by
    rw [hs]
    exact h.call c (hw ▸ hc)
  sent i ret hi := h.sent i ret (hs ▸ hi)
  written := by rw [hb, hs, hw, h.written]

lemma callWrite_wrote (h : Wrote ms s) (he : callWrite s = some s') : Wrote ms s' := by
  obtain ⟨m, rest, ho, hnone, rfl⟩ := callWrite_cases he
  have hdrop := h.outbox
  rw [ho, hnone, Option.elim_none, add_zero] at hdrop
  have hget : ms[s.sent.length]? = some m := by
    rw [← List.head?_drop, ← hdrop, List.head?_cons]
  refine ⟨?_, fun c hc => ?_, h.sent, ?_⟩
  · rw [Option.elim_some, ← List.tail_drop, ← hdrop, List.tail_cons]
  · obtain rfl := Option.some.inj hc
    exact ⟨WriteN.call_sound m, hget⟩
  · simpa [hnone, WriteN.call] using h.written

lemma Wrote.extend {c : WriteN} {k : ℕ} (h : Wrote ms s) (hc : s.writing = some c)
    (hk : c.ptr + k ≤ c.vptr.size) : s.stream.written ++ (c.vptr.bytes.drop c.ptr).take k =
      (ms.map Object.bytes).flatten.take
        (offset (ms.map Object.size) s.sent.length + c.ptr + k) := by
  have hget : (ms.map Object.bytes)[s.sent.length]? = some c.vptr.bytes := by
    rw [List.getElem?_map, (h.call c hc).2, Option.map_some]
  rw [h.written, hc, Option.elim_some, ← sizes, take_extend hget hk]

lemma writeStep_wrote (h : Wrote ms s) (he : writeStep s nwritten errno = some s') :
    Wrote ms s' := by
  obtain ⟨c, hc, hg, hcases⟩ := writeStep_cases he
  obtain ⟨hsound, hget⟩ := h.call c hc
  have hout := h.outbox
  rw [hc] at hout
  rcases hcases with rfl | ⟨stream, hpos, hle, hw, rfl⟩
  · refine ⟨hout, fun d hd => ?_, h.sent, ?_⟩
    · obtain rfl := Option.some.inj hd
      simp only [WriteN.guard] at hg
      exact ⟨hsound.advance le_rfl hg.le, hget⟩
    · rw [h.written, hc]
      rfl
  · rw [hsound.request_length] at hle
    obtain ⟨-, hwritten, -, -⟩ := Stream.write_eq_some.mp hw
    have hroom : c.ptr + nwritten.toNat ≤ c.vptr.size := (hsound.advance hpos.le hle).le
    refine ⟨hout, fun d hd => ?_, h.sent, ?_⟩
    · obtain rfl := Option.some.inj hd
      exact ⟨hsound.advance hpos.le hle, hget⟩
    · rw [hwritten, hsound.request_eq, h.extend hc hroom, add_assoc]
      rfl

lemma writeReturns_wrote (h : Wrote ms s) (he : writeReturns s = some s') : Wrote ms s' := by
  obtain ⟨c, hc, hg, rfl⟩ := writeReturns_cases he
  obtain ⟨hsound, hget⟩ := h.call c hc
  refine ⟨?_, fun d hd => (by cases hd), fun i ret hi => ?_, ?_⟩
  · rw [State.returnWrite, h.outbox, hc, List.length_append]
    rfl
  · simp only [State.returnWrite] at hi
    rcases getElem?_concat hi with hi | ⟨hi, hret⟩
    · exact h.sent i ret hi
    · refine ⟨c.vptr, ?_, ?_⟩
      · rw [hi, hget]
      · rw [hret, hsound.result_eq]
  · have hsize : (ms.map Object.size)[s.sent.length]? = some c.vptr.size := by
      rw [List.getElem?_map, hget, Option.map_some]
    have hw := h.written
    rw [hc, Option.elim_some, hsound.finished hg, ← offset_succ hsize] at hw
    simpa [State.returnWrite] using hw

end Writer

section Reader

structure Delivered (ns : List ℕ) (stream : Stream UInt8) (i : ℕ) (d : Delivery) : Prop where
  sz : ns[i]? = some d.sz
  ret : d.ret = d.data.length
  data : d.data = (stream.written.drop (offset ns i)).take d.sz
  full : d.data.length = d.sz ∨ stream.AtEnd

structure Got (ns : List ℕ) (s : State) : Prop where
  inbox : s.inbox = ns.drop (s.received.length + s.reading.elim 0 fun _ => 1)
  call : ∀ c, s.reading = some c → c.Sound ∧ ns[s.received.length]? = some c.sz ∧
    load s.buf c.ptr = (s.stream.written.drop (offset ns s.received.length)).take c.ptr
  position : s.stream.consumed = offset ns s.received.length + s.reading.elim 0 ReadN.ptr ∨
    s.stream.AtEnd ∧ s.stream.consumed ≤ offset ns s.received.length ∧
      s.reading.elim 0 ReadN.ptr = 0
  delivered : ∀ (i : ℕ) (d : Delivery), s.received[i]? = some d → Delivered ns s.stream i d

lemma start_got (ms : List Object) (buf : ℕ → UInt8) :
    Got (ms.map Object.size) (start ms buf) where
  inbox := by simp [start]
  call c hc := by cases hc
  position := Or.inl (by simp [start])
  delivered i d hi := by simp [start] at hi

structure Grows (t t' : Stream UInt8) : Prop where
  written : t.written <+: t'.written
  consumed : t'.consumed = t.consumed
  ended : t.AtEnd → t'.AtEnd

lemma grows_write {t t' : Stream UInt8} {bs : List UInt8} (h : t.write bs = some t') :
    Grows t t' := by
  obtain ⟨-, hw, hc, -⟩ := Stream.write_eq_some.mp h
  refine ⟨hw ▸ List.prefix_append _ _, hc, fun hend => ?_⟩
  rw [hend.no_write] at h
  cases h

lemma grows_close (t : Stream UInt8) : Grows t t.close where
  written := List.prefix_rfl
  consumed := rfl
  ended h := ⟨rfl, h.2⟩

lemma slice_stable {v w : List UInt8} {o k : ℕ} (h : v <+: w)
    (hk : o + k ≤ v.length) : (w.drop o).take k = (v.drop o).take k := by
  obtain ⟨u, rfl⟩ := h
  rw [List.drop_append_of_le_length (by omega), List.take_append_of_le_length (by simp; omega)]

lemma Delivered.grows {t t' : Stream UInt8} {i : ℕ} {d : Delivery} (h : Delivered ns t i d)
    (hg : Grows t t') : Delivered ns t' i d := by
  have hdata : d.data = (t'.written.drop (offset ns i)).take d.sz := by
    rcases h.full with hfull | hend
    · rcases Nat.eq_zero_or_pos d.sz with hzero | hpos
      · rw [h.data, hzero, List.take_zero, List.take_zero]
      · have hlen := congrArg List.length h.data
        rw [hfull, List.length_take, List.length_drop] at hlen
        rw [slice_stable hg.written (by omega), ← h.data]
    · have hlen : t'.written.length = t.written.length := by
        rw [← (hg.ended hend).consumed, hg.consumed, hend.consumed]
      rw [← List.IsPrefix.eq_of_length hg.written hlen.symm, ← h.data]
  exact ⟨h.sz, h.ret, hdata, h.full.imp_right hg.ended⟩

lemma Got.grows (h : Got ns s) (hg : Grows s.stream s'.stream) (hin : s'.inbox = s.inbox)
    (hr : s'.reading = s.reading) (hb : s'.buf = s.buf) (hd : s'.received = s.received) :
    Got ns s' where
  inbox := by rw [hin, hd, hr, h.inbox]
  call c hc := by
    rw [hr] at hc
    obtain ⟨hsound, hget, hload⟩ := h.call c hc
    refine ⟨hsound, hd ▸ hget, ?_⟩
    rw [hb, hd, hload]
    rcases Nat.eq_zero_or_pos c.ptr with hzero | hpos
    · rw [hzero, List.take_zero, List.take_zero]
    · have hlen := congrArg List.length hload
      rw [load_length, List.length_take, List.length_drop] at hlen
      rw [slice_stable hg.written (by omega)]
  position := by
    rw [hg.consumed, hd, hr]
    exact h.position.imp_right fun ⟨hend, hrest⟩ => ⟨hg.ended hend, hrest⟩
  delivered i d hi := (h.delivered i d (hd ▸ hi)).grows hg

lemma callRead_got (hfits : ∀ n ∈ ns, n ≤ SSIZE_MAX) (h : Got ns s)
    (he : callRead s = some s') : Got ns s' := by
  obtain ⟨n, rest, hin, hnone, rfl⟩ := callRead_cases he
  have hdrop := h.inbox
  rw [hin, hnone, Option.elim_none, add_zero] at hdrop
  have hget : ns[s.received.length]? = some n := by
    rw [← List.head?_drop, ← hdrop, List.head?_cons]
  refine ⟨?_, fun c hc => ?_, ?_, h.delivered⟩
  · rw [Option.elim_some, ← List.tail_drop, ← hdrop, List.tail_cons]
  · obtain rfl := Option.some.inj hc
    exact ⟨ReadN.call_sound (hfits n (List.mem_of_getElem? hget)), hget, rfl⟩
  · simpa [hnone, ReadN.call] using h.position

lemma Got.returnRead {c : ReadN} (h : Got ns s) (hc : s.reading = some c)
    (hdone : c.ptr = c.sz ∨ s.stream.AtEnd) : Got ns (s.returnRead c c.result) := by
  obtain ⟨hsound, hget, hload⟩ := h.call c hc
  have hpos := h.position
  rw [hc, Option.elim_some] at hpos
  have hres : c.result.toNat = c.ptr := by rw [hsound.result_eq, Int.toNat_natCast]
  have hle := hsound.le
  have hdata : load s.buf c.ptr =
      (s.stream.written.drop (offset ns s.received.length)).take c.sz := by
    rw [hload]
    rcases hdone with hfull | hend
    · rw [hfull]
    · have hlen : s.stream.written.length ≤ offset ns s.received.length + c.ptr := by
        rw [← hend.consumed]
        rcases hpos with hpos | ⟨-, hpos, -⟩ <;> omega
      rw [List.take_of_length_le (by simp; omega), List.take_of_length_le (by simp; omega)]
  have hnext := offset_succ hget
  refine ⟨?_, fun d hd => (by cases hd), ?_, fun i d hi => ?_⟩
  · rw [State.returnRead, h.inbox, hc, List.length_append]
    rfl
  · simp only [State.returnRead, List.length_append, List.length_singleton, Option.elim_none, hnext]
    rcases hdone with hfull | hend
    · rcases hpos with hpos | ⟨hend, hpos, hzero⟩
      · exact Or.inl (by omega)
      · exact Or.inr ⟨hend, by omega, trivial⟩
    · rcases hpos with hpos | ⟨-, hpos, -⟩
      · exact Or.inr ⟨hend, by omega, trivial⟩
      · exact Or.inr ⟨hend, by omega, trivial⟩
  · simp only [State.returnRead, hres] at hi
    rcases getElem?_concat hi with hi | ⟨hi, hd⟩
    · exact h.delivered i d hi
    · rw [hi, hd]
      refine ⟨hget, ?_, hdata, ?_⟩
      · change c.result = _
        rw [hsound.result_eq, load_length]
      · exact hdone.imp_left fun hfull => by rw [load_length, hfull]

lemma readStep_got (h : Got ns s) (he : readStep s nread errno = some s') : Got ns s' := by
  obtain ⟨c, hc, hg, rfl | ⟨hend, rfl⟩ | ⟨bs, stream, hpos, hle, hr, rfl⟩⟩ := readStep_cases he
  · exact h
  · exact h.returnRead hc (Or.inr hend)
  · obtain ⟨hsound, hget, hload⟩ := h.call c hc
    obtain ⟨⟨hk, hlen⟩, hbs, hw, hcons, hclosed⟩ := Stream.read_eq_some.mp hr
    have hopen : ¬ s.stream.AtEnd := by
      intro hend
      rw [hend.no_read] at hr
      cases hr
    have hat : s.stream.consumed = offset ns s.received.length + c.ptr := by
      rcases h.position with hat | ⟨hend, -⟩
      · simpa [hc] using hat
      · exact absurd hend hopen
    have hnum : bs.length = nread.toNat := by
      rw [hbs, List.length_take, Nat.min_eq_left hlen]
    rw [hsound.request_eq] at hle
    refine ⟨?_, fun d hd => ?_, Or.inl ?_, fun i d hi => ?_⟩
    · rw [h.inbox, hc]
      rfl
    · obtain rfl := Option.some.inj hd
      refine ⟨hsound.advance hpos.le hle, hget, ?_⟩
      change load (store s.buf c.ptr bs) (c.ptr + nread.toNat) = _
      rw [← hnum, load_store, hload, hbs, hw, Stream.unread, hat, ← List.drop_drop,
        ← List.take_add]
      rfl
    · rw [hcons, hat, add_assoc]
      rfl
    · have hold := h.delivered i d hi
      exact ⟨hold.sz, hold.ret, by rw [hw, hold.data], Or.inl (hold.full.resolve_right hopen)⟩

lemma readReturns_got (h : Got ns s) (he : readReturns s = some s') : Got ns s' := by
  obtain ⟨c, hc, hg, rfl⟩ := readReturns_cases he
  exact h.returnRead hc (Or.inl ((h.call c hc).1.finished hg))

end Reader

structure Kept (ms : List Object) (s : State) : Prop where
  wrote : Wrote ms s
  got : Got (ms.map Object.size) s

lemma sizes_fit : ∀ n ∈ ms.map Object.size, n ≤ SSIZE_MAX := by
  intro n hn
  obtain ⟨m, -, rfl⟩ := List.mem_map.mp hn
  exact m.fits

lemma writeStep_grows (he : writeStep s nwritten errno = some s') :
    Grows s.stream s'.stream ∧ s'.inbox = s.inbox ∧ s'.reading = s.reading ∧ s'.buf = s.buf ∧
      s'.received = s.received := by
  obtain ⟨c, -, -, rfl | ⟨stream, -, -, hw, rfl⟩⟩ := writeStep_cases he
  · exact ⟨⟨List.prefix_rfl, rfl, id⟩, rfl, rfl, rfl, rfl⟩
  · exact ⟨grows_write hw, rfl, rfl, rfl, rfl⟩

lemma readStep_written (he : readStep s nread errno = some s') : s'.outbox = s.outbox ∧
    s'.writing = s.writing ∧ s'.sent = s.sent ∧ s'.stream.written = s.stream.written := by
  obtain ⟨c, -, -, rfl | ⟨-, rfl⟩ | ⟨bs, stream, -, -, hr, rfl⟩⟩ := readStep_cases he
  · exact ⟨rfl, rfl, rfl, rfl⟩
  · exact ⟨rfl, rfl, rfl, rfl⟩
  · exact ⟨rfl, rfl, rfl, (Stream.read_eq_some.mp hr).2.2.1⟩

lemma step_kept {l : Label} (h : Kept ms s) (he : step s l = some s') : Kept ms s' := by
  have hstay : Grows s.stream s.stream := ⟨List.prefix_rfl, rfl, id⟩
  cases l with
  | writeN =>
    refine ⟨callWrite_wrote h.wrote he, ?_⟩
    obtain ⟨m, rest, -, -, rfl⟩ := callWrite_cases he
    exact h.got.grows hstay rfl rfl rfl rfl
  | write nwritten errno =>
    obtain ⟨hg, hin, hr, hb, hd⟩ := writeStep_grows he
    exact ⟨writeStep_wrote h.wrote he, h.got.grows hg hin hr hb hd⟩
  | writeReturns =>
    refine ⟨writeReturns_wrote h.wrote he, ?_⟩
    obtain ⟨c, -, -, rfl⟩ := writeReturns_cases he
    exact h.got.grows hstay rfl rfl rfl rfl
  | close =>
    obtain rfl := Option.some.inj he
    exact ⟨h.wrote.congr rfl rfl rfl rfl, h.got.grows (grows_close _) rfl rfl rfl rfl⟩
  | readN =>
    refine ⟨?_, callRead_got sizes_fit h.got he⟩
    obtain ⟨n, rest, -, -, rfl⟩ := callRead_cases he
    exact h.wrote.congr rfl rfl rfl rfl
  | read nread errno =>
    obtain ⟨ho, hw, hs, hb⟩ := readStep_written he
    exact ⟨h.wrote.congr ho hw hs hb, readStep_got h.got he⟩
  | readReturns =>
    refine ⟨?_, readReturns_got h.got he⟩
    obtain ⟨c, -, -, rfl⟩ := readReturns_cases he
    exact h.wrote.congr rfl rfl rfl rfl

lemma kept_inductive (ms : List Object) : (system ms).Inductive (Kept ms) where
  initial := by
    rintro _ ⟨buf, rfl⟩
    exact ⟨start_wrote ms buf, start_got ms buf⟩
  step _ _ _ h he := step_kept h he

lemma Kept.delivered {i : ℕ} {d : Delivery} (h : Kept ms s) (hi : s.received[i]? = some d) :
    ∃ m : Object, ms[i]? = some m ∧ d.ret = d.data.length ∧
      d.data = m.bytes.take (s.stream.written.length - offset (ms.map Object.size) i) ∧
      (s.stream.closed = false → d.data = m.bytes) := by
  have hd := h.got.delivered i d hi
  obtain ⟨m, hm, hsize⟩ : ∃ m, ms[i]? = some m ∧ m.size = d.sz := by
    simpa only [List.getElem?_map, Option.map_eq_some_iff] using hd.sz
  have hget : (ms.map Object.bytes)[i]? = some m.bytes := by
    rw [List.getElem?_map, hm, Option.map_some]
  have hprefix : s.stream.written <+: (ms.map Object.bytes).flatten := by
    rw [h.wrote.written]
    exact List.take_prefix _ _
  have hdata : d.data =
      m.bytes.take (s.stream.written.length - offset (ms.map Object.size) i) := by
    rw [hd.data, ← hsize, ← sizes]
    exact slice_prefix hprefix hget
  refine ⟨m, hm, hd.ret, hdata, fun hopen => ?_⟩
  have hnot : ¬ s.stream.AtEnd := by
    intro hend
    have hclosed := hend.1
    rw [hopen] at hclosed
    cases hclosed
  have hfull : d.data.length = d.sz := hd.full.resolve_right hnot
  rw [hdata, ← hsize, List.length_take, Object.size] at hfull
  rw [hdata, List.take_of_length_le (by omega)]

/-- Offsets are those of the messages in the stream: the `i`-th `ReadN` finds what
the writer has put after the first `i` messages, and all of it unless the stream was
closed. -/
theorem messages_transported (ms : List Object) (s : State) (h : (system ms).Reachable s) :
    (∀ (i : ℕ) (ret : ℤ), s.sent[i]? = some ret →
      ∃ m : Object, ms[i]? = some m ∧ ret = m.size) ∧
    ∀ (i : ℕ) (d : Delivery), s.received[i]? = some d → ∃ m : Object, ms[i]? = some m ∧
      d.ret = d.data.length ∧
      d.data = m.bytes.take (s.stream.written.length - offset (ms.map Object.size) i) ∧
      (s.stream.closed = false → d.data = m.bytes) := by
  have hk : Kept ms s := (kept_inductive ms).reachable h
  exact ⟨hk.wrote.sent, fun i d hi => hk.delivered hi⟩

def greeting : List Object :=
  [⟨[104, 105], by decide⟩, ⟨[33], by decide⟩]

theorem messages_transported_two : ∃ s, (system greeting).Reachable s ∧
    s.received = [⟨2, 2, [104, 105]⟩, ⟨1, 0, []⟩] ∧
    (∃ m : Object, greeting[0]? = some m ∧ (2 : ℤ) = m.size) ∧
    ∃ m : Object, greeting[1]? = some m ∧ (0 : ℤ) = ([] : List UInt8).length ∧
      [] = m.bytes.take (s.stream.written.length - offset (greeting.map Object.size) 1) ∧
      (s.stream.closed = false → [] = m.bytes) := by
  have hrun : ((system greeting).exec (start greeting fun _ => 0)
      [.writeN, .write 1 0, .readN, .read (-1) EINTR, .read 1 0, .write (-1) EINTR, .write 1 0,
        .writeReturns, .read 1 0, .readReturns, .close, .readN, .read 0 0]).map
      (fun s => (s.received, s.sent)) = some ([⟨2, 2, [104, 105]⟩, ⟨1, 0, []⟩], [2]) := by decide
  have hstart : (system greeting).initial (start greeting fun _ => 0) := ⟨_, rfl⟩
  obtain ⟨s, hs, he⟩ := System.Reachable.observe hstart hrun
  obtain ⟨hreceived, hsent⟩ := Prod.mk.inj he
  have h := messages_transported greeting s hs
  exact ⟨s, hs, hreceived, h.1 0 2 (by rw [hsent]; rfl), h.2 1 ⟨1, 0, []⟩ (by rw [hreceived]; rfl)⟩

end UnixProgramming.HSocket
