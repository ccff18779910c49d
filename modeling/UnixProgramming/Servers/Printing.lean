import UnixProgramming.EpollReactor.Handlers
import UnixProgramming.ProcessServer.Model
import UnixProgramming.LineEcho.Server

/-! What the three servers print of one receive. Each of them zeroes an array of 1024
bytes and lets the receive fill it. -/

namespace UnixProgramming.Servers

open Library

def Ends (content : List UInt8) : Prop :=
  content.length < 1024 ∨ 0 ∈ content

/-- The array ends the content with a zero byte, and the content is what is printed. -/
def Printed (content array : List UInt8) : Prop :=
  asString array = some (content.takeWhile (· ≠ 0))

variable {content : List UInt8}

lemma padded_printed (h : content.length ≤ 1024) :
    Printed content (content ++ List.replicate (1024 - content.length) 0) ↔ Ends content := by
  have hroom : 0 < 1024 - content.length ↔ content.length < 1024 := by omega
  rw [Printed, asString_padded, hroom]
  rfl

lemma load_padded (h : content.length ≤ 1024) : load (store (fun _ => 0) 0 content) 1024 =
    content ++ List.replicate (1024 - content.length) 0 := by
  obtain ⟨k, hk⟩ : ∃ k, 1024 = content.length + k := ⟨1024 - content.length, by omega⟩
  have hrest : ∀ i, store (fun _ => 0) 0 content (content.length + i) = 0 :=
    fun i => store_after (by omega)
  rw [hk, load_add, load_store_first, Nat.add_sub_cancel_left]
  simp only [hrest, load_zero]

lemma upcase_padded (h : content.length ≤ 1024) :
    load (LineEcho.upcase (store (fun _ => 0) 0 content) content.length) 1024 =
      content.map LineEcho.toupper ++ List.replicate (1024 - content.length) 0 := by
  obtain ⟨k, hk⟩ : ∃ k, 1024 = content.length + k := ⟨1024 - content.length, by omega⟩
  have hrest : ∀ i, LineEcho.upcase (store (fun _ => 0) 0 content) content.length
      (content.length + i) = 0 := by
    intro i
    rw [LineEcho.upcase_apply, if_neg (by omega)]
    exact store_after (by omega)
  rw [hk, load_add, LineEcho.load_upcase, load_store_first, Nat.add_sub_cancel_left]
  simp only [hrest, load_zero]

lemma toupper_zero {b : UInt8} : LineEcho.toupper b = 0 ↔ b = 0 := by
  constructor
  · intro h
    by_contra hb
    exact LineEcho.toupper_ne_zero hb h
  · rintro rfl
    rfl

lemma takeWhile_toupper : (content.map LineEcho.toupper).takeWhile (· ≠ 0) =
    (content.takeWhile (· ≠ 0)).map LineEcho.toupper := by
  rw [List.takeWhile_map]
  congr 2
  funext b
  simp [toupper_zero]

lemma mem_toupper : 0 ∈ content.map LineEcho.toupper ↔ 0 ∈ content := by
  simp only [List.mem_map, toupper_zero]
  constructor
  · rintro ⟨b, hb, rfl⟩
    exact hb
  · intro h
    exact ⟨0, h, rfl⟩

lemma upcase_printed (h : content.length ≤ 1024) :
    asString (content.map LineEcho.toupper ++ List.replicate (1024 - content.length) 0) =
      some ((content.takeWhile (· ≠ 0)).map LineEcho.toupper) ↔ Ends content := by
  have hroom : 0 < 1024 - content.length ↔ content.length < 1024 := by omega
  rw [← takeWhile_toupper, asString_padded, hroom, mem_toupper]
  rfl

lemma reactor_prints {r : EpollReactor.Reactor} {i : EpollReactor.Slot}
    (hr : EpollReactor.Registered r i) (h₀ : content ≠ []) (h : content.length ≤ 1024) :
    ∃ r' array, EpollReactor.recvData r i (some content) = .ok r' ∧
      r'.log = r.log ++ [.recv (r.Events i).fd, .print array] ∧
      (Printed content array ↔ Ends content) := by
  cases content with
  | nil => exact absurd rfl h₀
  | cons b bs =>
    refine ⟨_, EpollReactor.received (b :: bs), EpollReactor.recvData_data hr b bs, ?_,
      padded_printed h⟩
    simp [EpollReactor.rearm, EpollReactor.Reactor.record]

lemma child_prints {q : ProcessServer.Proc} (hq : q.pc = .read) (h₀ : content ≠ [])
    (h : content.length ≤ 1024) : ∃ q', ProcessServer.readStep q (.data content) = some q' ∧
      (Printed content q'.buf ↔ Ends content) := by
  have hpos : 0 < content.length := List.length_pos_iff.mpr h₀
  refine ⟨_, if_pos ⟨hq, ?_⟩, padded_printed h⟩
  simp [ProcessServer.ReadResult.possible, ProcessServer.BUFFER_SIZE, hpos, h]

lemma tcpServer_prints {s : LineEcho.Server.State} (hs : s.pc = .read) (h₀ : content ≠ [])
    (h : content.length ≤ 1024) : ∃ s' first second,
      LineEcho.Server.readStep s (.data content) = some s' ∧
      s'.printed = s.printed ++ [first, second] ∧
      (first = some (content.takeWhile (· ≠ 0)) ↔ Ends content) ∧
      (second = some ((content.takeWhile (· ≠ 0)).map LineEcho.toupper) ↔ Ends content) := by
  have hpos : 0 < content.length := List.length_pos_iff.mpr h₀
  have hp : (LineEcho.Server.ReadResult.data content).possible = true := by
    simp [LineEcho.Server.ReadResult.possible, LineEcho.serverBufferSize, hpos, h]
  refine ⟨_, _, _, if_pos ⟨hs, hp⟩, rfl, ?_, ?_⟩
  · rw [string_eq_asString, LineEcho.serverBufferSize, load_padded h]
    exact padded_printed h
  · rw [string_eq_asString, LineEcho.serverBufferSize, upcase_padded h]
    exact upcase_printed h

/-- Only a receive that fills the array without a zero byte is printed past its end. -/
theorem printed_within_iff (h₀ : content ≠ []) (h : content.length ≤ 1024) :
    (∀ r i, EpollReactor.Registered r i → ∃ r' array,
      EpollReactor.recvData r i (some content) = .ok r' ∧
      r'.log = r.log ++ [.recv (r.Events i).fd, .print array] ∧
      (Printed content array ↔ Ends content)) ∧
    (∀ q : ProcessServer.Proc, q.pc = .read → ∃ q',
      ProcessServer.readStep q (.data content) = some q' ∧
      (Printed content q'.buf ↔ Ends content)) ∧
    ∀ s : LineEcho.Server.State, s.pc = .read → ∃ s' first second,
      LineEcho.Server.readStep s (.data content) = some s' ∧
      s'.printed = s.printed ++ [first, second] ∧
      (first = some (content.takeWhile (· ≠ 0)) ↔ Ends content) ∧
      (second = some ((content.takeWhile (· ≠ 0)).map LineEcho.toupper) ↔ Ends content) :=
  ⟨fun _ _ hr => reactor_prints hr h₀ h, fun _ hq => child_prints hq h₀ h,
    fun _ hs => tcpServer_prints hs h₀ h⟩

theorem printed_within_byte : ([65] : List UInt8) ≠ [] ∧ [65].length ≤ 1024 ∧
    ∀ q : ProcessServer.Proc, q.pc = .read → ∃ q',
      ProcessServer.readStep q (.data [65]) = some q' ∧ Printed [65] q'.buf := by
  have hlen : ([65] : List UInt8).length ≤ 1024 := by decide
  refine ⟨List.cons_ne_nil _ _, hlen, fun q hq => ?_⟩
  obtain ⟨q', he, hiff⟩ := (printed_within_iff (List.cons_ne_nil 65 []) hlen).2.1 q hq
  exact ⟨q', he, hiff.mpr (Or.inl (by decide))⟩

theorem full_receive_unended : (List.replicate 1024 (65 : UInt8)).length ≤ 1024 ∧
    ¬ Printed (List.replicate 1024 65) (EpollReactor.received (List.replicate 1024 65)) ∧
    ¬ Printed (List.replicate 1024 65)
      (ProcessServer.ReadResult.data (List.replicate 1024 65)).buf ∧
    ∃ s' first second, LineEcho.Server.readStep LineEcho.Server.start
        (.data (List.replicate 1024 65)) = some s' ∧ s'.printed = [first, second] ∧
      first ≠ some ((List.replicate 1024 65).takeWhile (· ≠ 0)) := by
  obtain ⟨content, hcontent, hlen, hzero⟩ : ∃ content : List UInt8,
      List.replicate 1024 65 = content ∧ content.length = 1024 ∧ 0 ∉ content :=
    ⟨_, rfl, List.length_replicate, fun h => absurd (List.eq_of_mem_replicate h) (by decide)⟩
  rw [hcontent]
  have hle : content.length ≤ 1024 := Nat.le_of_eq hlen
  have hne : content ≠ [] := List.ne_nil_of_length_pos (by rw [hlen]; decide)
  have hends : ¬ Ends content := by
    rintro (h | h)
    · omega
    · exact hzero h
  have hprinted := (padded_printed hle).not.mpr hends
  obtain ⟨s', first, second, he, hs, hfirst, -⟩ :=
    tcpServer_prints (s := LineEcho.Server.start) rfl hne hle
  exact ⟨hle, hprinted, hprinted, s', first, second, he, hs, hfirst.not.mpr hends⟩

end UnixProgramming.Servers
