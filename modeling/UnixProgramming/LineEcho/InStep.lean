import UnixProgramming.LineEcho.Model

/-! When the reply that the client prints belongs to the line it has just sent. -/

namespace UnixProgramming.LineEcho

open Library Library.Transition

variable {s s' : State} {done : List (List UInt8)} {line : List UInt8} {len : ℕ}

def InStep (s : State) : Prop :=
  ∀ (k : ℕ) (t : Option (List UInt8)), s.printed[k]? = some t →
    ∃ line, s.lines[k]? = some line ∧ t = some (line.map toupper)

/-- No line holds a zero byte, and the client's reads return as many bytes as the
line just sent has. -/
def Whole (s : State) : Label → Prop
  | .fgets => 0 ∉ (fgets (BUF_SIZ - 1) s.input).1
  | .clientRead len => ∀ line ∈ s.lines.getLast?, len = line.length
  | .clientWrite | .serverRead _ | .respond => True

instance (s : State) (l : Label) : Decidable (Whole s l) := by
  cases l <;> unfold Whole <;> infer_instance

structure Answered (s : State) (done : List (List UInt8)) : Prop where
  consumed : s.down.consumed = done.flatten.length
  printed : s.printed = done.map fun line => some (line.map toupper)

structure Current (s : State) (done : List (List UInt8)) (line : List UInt8) : Prop where
  lines : s.lines = done ++ [line]
  text : 0 ∉ line
  nonempty : line ≠ []
  fits : line.length < BUF_SIZ
  holds : Holds s.buf line
  answered : Answered s done

def Point (s : State) : Prop :=
  match s.client with
  | .fgets => Answered s s.lines ∧ s.up.written = s.lines.flatten
  | .write => ∃ done line, Current s done line ∧ s.up.written = done.flatten
  | .read => ∃ done line, Current s done line ∧ s.up.written = s.lines.flatten
  | .closed => False

-- What the server has read and not yet answered.
def pending (s : State) : List UInt8 :=
  match s.server with
  | .respond len => (load s.serverBuf len).map toupper
  | .read | .closed => []

structure Synced (s : State) : Prop where
  point : Point s
  echoed : s.down.written ++ pending s = (s.up.written.take s.up.consumed).map toupper
  upOpen : s.up.closed = false
  downOpen : s.down.closed = false

lemma start_synced (input : List UInt8) (buf : ℕ → UInt8) : Synced (start input buf) where
  point := ⟨⟨rfl, rfl⟩, rfl⟩
  echoed := rfl
  upOpen := rfl
  downOpen := rfl

lemma fgetsStep_synced (h : Synced s) (htext : 0 ∉ (fgets (BUF_SIZ - 1) s.input).1)
    (he : fgetsStep s = some s') : Synced s' := by
  simp only [fgetsStep, Option.ite_none_right_eq_some, Option.some.injEq] at he
  obtain ⟨⟨hc, hin⟩, rfl⟩ := he
  have hp := h.point
  simp only [Point, hc] at hp
  obtain ⟨hdone, hw⟩ := hp
  refine ⟨⟨s.lines, _, ⟨rfl, htext, fgets_ne_nil hin, ?_, holds_store, ?_⟩, hw⟩, h.echoed, h.upOpen,
    h.downOpen⟩
  · exact Nat.lt_succ_of_le fgets_length
  · exact ⟨hdone.consumed, hdone.printed⟩

lemma Current.string (h : Current s done line) : string s.buf BUF_SIZ = some line :=
  h.holds.string h.text h.fits

lemma clientWrite_synced (h : Synced s) (he : clientWrite s = some s') : Synced s' := by
  simp only [clientWrite, Option.ite_none_right_eq_some] at he
  obtain ⟨hc, he⟩ := he
  have hp := h.point
  simp only [Point, hc] at hp
  obtain ⟨done, line, hcur, hw⟩ := hp
  rw [hcur.string, Option.bind_some, if_neg hcur.nonempty] at he
  obtain ⟨up, hup, rfl⟩ := Option.map_eq_some_iff.mp he
  obtain ⟨-, hwritten, hconsumed, hopen⟩ := Stream.write_eq_some.mp hup
  refine ⟨⟨done, line, ⟨hcur.lines, hcur.text, hcur.nonempty, hcur.fits, hcur.holds,
    ⟨hcur.answered.consumed, hcur.answered.printed⟩⟩, ?_⟩, ?_, hopen, h.downOpen⟩
  · simp [hwritten, hw, hcur.lines]
  · change s.down.written ++ pending s = (up.written.take up.consumed).map toupper
    rw [h.echoed, hwritten, hconsumed, List.take_append_of_le_length s.up.le]

lemma Current.reply (hcur : Current s done line) (hs : Synced s)
    (hw : s.up.written = s.lines.flatten) (hlen : line.length ≤ s.down.unread.length) :
    s.down.unread.take line.length = line.map toupper := by
  have hprefix : s.down.written <+: done.flatten.map toupper ++ line.map toupper := by
    have hsent : s.up.written.map toupper = done.flatten.map toupper ++ line.map toupper := by
      rw [hw, hcur.lines]
      simp
    have htake : (s.up.written.take s.up.consumed).map toupper <+: s.up.written.map toupper :=
      (List.take_prefix _ _).map _
    rw [← hs.echoed, hsent] at htake
    exact (List.prefix_append _ _).trans htake
  rw [Stream.unread_length, hcur.answered.consumed] at hlen
  have hfull : (done.flatten.map toupper ++ line.map toupper).length ≤ s.down.written.length := by
    rw [List.length_append, List.length_map, List.length_map]
    have hpos : 0 < line.length := List.length_pos_iff.mpr hcur.nonempty
    omega
  have hskip : (done.flatten.map toupper ++ line.map toupper).drop done.flatten.length =
      line.map toupper := List.drop_left' (List.length_map toupper)
  rw [Stream.unread, hprefix.eq_of_length_le hfull, hcur.answered.consumed, hskip]
  exact List.take_of_length_le (List.length_map toupper).le

lemma clientRead_synced (h : Synced s)
    (hwhole : ∀ line ∈ s.lines.getLast?, len = line.length)
    (he : clientRead s len = some s') : Synced s' := by
  simp only [clientRead, Option.ite_none_right_eq_some] at he
  obtain ⟨hc, he⟩ := he
  have hp := h.point
  simp only [Point, hc] at hp
  obtain ⟨done, line, hcur, hw⟩ := hp
  obtain rfl : len = line.length := hwhole line (by simp [hcur.lines])
  rw [if_neg (List.length_pos_iff.mpr hcur.nonempty).ne', if_pos hcur.fits.le] at he
  obtain ⟨⟨bs, down⟩, hr, rfl⟩ := Option.map_eq_some_iff.mp he
  obtain ⟨⟨-, hlen⟩, hbs, hdw, hdc, hclosed⟩ := Stream.read_eq_some.mp hr
  rw [hcur.reply h hw hlen] at hbs
  subst hbs
  have hholds : Holds (store s.buf 0 (line.map toupper)) (line.map toupper) :=
    hcur.holds.store (List.length_map toupper)
  have htext : string (store s.buf 0 (line.map toupper)) BUF_SIZ = some (line.map toupper) := by
    apply hholds.string
    · intro hzero
      obtain ⟨b, hb, heq⟩ := List.mem_map.mp hzero
      exact toupper_ne_zero (fun hb₀ => hcur.text (hb₀ ▸ hb)) heq
    · rw [List.length_map]
      exact hcur.fits
  refine ⟨⟨⟨?_, ?_⟩, hw⟩, ?_, h.upOpen, hclosed.trans h.downOpen⟩
  · simp [hdc, hcur.answered.consumed, hcur.lines]
  · simp [htext, hcur.answered.printed, hcur.lines]
  · change down.written ++ pending s = (s.up.written.take s.up.consumed).map toupper
    rw [hdw, h.echoed]

lemma Point.server {up down : Stream UInt8} {server : ServerPc} {buf : ℕ → UInt8} (h : Point s)
    (hu : up.written = s.up.written) (hd : down.consumed = s.down.consumed) :
    Point { s with up := up, down := down, server := server, serverBuf := buf } := by
  cases hc : s.client with
  | fgets =>
    simp only [Point, hc] at h ⊢
    obtain ⟨hdone, hw⟩ := h
    exact ⟨⟨hd.trans hdone.consumed, hdone.printed⟩, hu.trans hw⟩
  | write | read =>
    simp only [Point, hc] at h ⊢
    obtain ⟨done, line, hcur, hw⟩ := h
    exact ⟨done, line, ⟨hcur.lines, hcur.text, hcur.nonempty, hcur.fits, hcur.holds,
      hd.trans hcur.answered.consumed, hcur.answered.printed⟩, hu.trans hw⟩
  | closed => simp only [Point, hc] at h

lemma serverRead_synced (h : Synced s) (he : serverRead s len = some s') : Synced s' := by
  simp only [serverRead, Option.ite_none_right_eq_some] at he
  obtain ⟨hs, he⟩ := he
  split_ifs at he with hzero hend hle
  · have hclosed := hend.1
    rw [h.upOpen] at hclosed
    cases hclosed
  · obtain ⟨⟨bs, up⟩, hr, rfl⟩ := Option.map_eq_some_iff.mp he
    obtain ⟨⟨-, hlen⟩, hbs, hw, hc, hclosed⟩ := Stream.read_eq_some.mp hr
    refine ⟨h.point.server hw rfl, ?_, hclosed.trans h.upOpen, h.downOpen⟩
    have hpending : pending s = [] := by simp [pending, hs]
    have hload : load (store (fun _ => 0) 0 bs) len = bs := by
      have hnum : bs.length = len := by rw [hbs, List.length_take, Nat.min_eq_left hlen]
      rw [← hnum, load_store_first]
    have hdown := h.echoed
    rw [hpending, List.append_nil] at hdown
    change s.down.written ++ (load (store (fun _ => 0) 0 bs) len).map toupper =
      (up.written.take up.consumed).map toupper
    rw [hdown, hload, hbs, hw, hc, List.take_add, List.map_append]
    rfl

lemma respond_synced (h : Synced s) (he : respond s = some s') : Synced s' := by
  cases hs : s.server with
  | respond len =>
    simp only [respond, hs] at he
    obtain ⟨down, hw, rfl⟩ := Option.map_eq_some_iff.mp he
    obtain ⟨-, hwritten, hconsumed, hopen⟩ := Stream.write_eq_some.mp hw
    refine ⟨h.point.server rfl hconsumed, ?_, h.upOpen, hopen⟩
    have hechoed := h.echoed
    simp only [pending, hs] at hechoed
    rw [hwritten, load_upcase, hechoed]
    exact List.append_nil _
  | read | closed => simp [respond, hs] at he

lemma step_synced {l : Label} (h : Synced s) (hw : Whole s l) (he : step s l = some s') :
    Synced s' := by
  cases l with
  | fgets => exact fgetsStep_synced h hw he
  | clientWrite => exact clientWrite_synced h he
  | clientRead len => exact clientRead_synced h hw he
  | serverRead len => exact serverRead_synced h he
  | respond => exact respond_synced h he

lemma Synced.inStep (h : Synced s) : InStep s := by
  have hlines : ∀ done, Answered s done → done <+: s.lines → InStep s := by
    intro done hdone hprefix k t ht
    rw [hdone.printed, List.getElem?_map, Option.map_eq_some_iff] at ht
    obtain ⟨line, hline, rfl⟩ := ht
    obtain ⟨rest, hrest⟩ := hprefix
    refine ⟨line, ?_, rfl⟩
    rw [← hrest, List.getElem?_append_left (List.getElem?_eq_some_iff.mp hline).1, hline]
  have hp := h.point
  cases hc : s.client with
  | fgets =>
    simp only [Point, hc] at hp
    exact hlines s.lines hp.1 List.prefix_rfl
  | write | read =>
    simp only [Point, hc] at hp
    obtain ⟨done, line, hcur, -⟩ := hp
    exact hlines done hcur.answered (hcur.lines ▸ List.prefix_append done [line])
  | closed => simp only [Point, hc] at hp

/-- A line is what one `fgets` returns: at most 1027 bytes of what was typed. -/
theorem lines_in_step (input : List UInt8) (buf : ℕ → UInt8) (ls : List Label) (s : State)
    (hr : (system input).Run (start input buf) ls s)
    (hg : (system input).Guarded Whole (start input buf) ls) :
    (system input).Along InStep (start input buf) ls :=
  hg.along (fun _ h => h.inStep) (fun _ _ _ h hw he => step_synced h hw he)
    (start_synced input buf) hr

theorem lines_in_step_one : ∃ s, (system [97, 98, 10]).Run (start [97, 98, 10] fun _ => 0)
      [.fgets, .clientWrite, .serverRead 2, .respond, .serverRead 1, .respond, .clientRead 3] s ∧
    (system [97, 98, 10]).Along InStep (start [97, 98, 10] fun _ => 0)
      [.fgets, .clientWrite, .serverRead 2, .respond, .serverRead 1, .respond, .clientRead 3] := by
  have hrun : ((system [97, 98, 10]).exec (start [97, 98, 10] fun _ => 0)
      [.fgets, .clientWrite, .serverRead 2, .respond, .serverRead 1, .respond,
        .clientRead 3]).isSome = true := by decide +kernel
  obtain ⟨s, hr⟩ := System.exists_run hrun
  exact ⟨s, hr, lines_in_step [97, 98, 10] (fun _ => 0) _ s hr (by decide +kernel)⟩

/-- The server has answered only the first byte of `ab` when the client reads: the
line is printed as `Ab`, and the next reply begins with the rest of this one. -/
theorem stale_tail_printed : ∃ s, (system [97, 98, 10, 99, 100, 10]).Reachable s ∧
    s.lines = [[97, 98, 10], [99, 100, 10]] ∧
    s.printed = [some [65, 98, 10], some [66, 10, 10]] ∧ ¬ InStep s := by
  have hrun : ((system [97, 98, 10, 99, 100, 10]).exec
      (start [97, 98, 10, 99, 100, 10] fun _ => 0)
      [.fgets, .clientWrite, .serverRead 1, .respond, .clientRead 1, .serverRead 2, .respond,
        .fgets, .clientWrite, .clientRead 2]).map (fun s => (s.lines, s.printed)) =
      some ([[97, 98, 10], [99, 100, 10]], [some [65, 98, 10], some [66, 10, 10]]) := by
    decide +kernel
  have hstart : (system [97, 98, 10, 99, 100, 10]).initial
      (start [97, 98, 10, 99, 100, 10] fun _ => 0) := ⟨_, rfl⟩
  obtain ⟨s, hs, he⟩ := System.Reachable.observe hstart hrun
  obtain ⟨hlines, hprinted⟩ := Prod.mk.inj he
  refine ⟨s, hs, hlines, hprinted, fun hstep => ?_⟩
  obtain ⟨line, hline, htext⟩ := hstep 0 (some [65, 98, 10]) (by rw [hprinted]; rfl)
  rw [hlines] at hline
  obtain rfl := Option.some.inj hline
  exact absurd htext (by decide)

end UnixProgramming.LineEcho
