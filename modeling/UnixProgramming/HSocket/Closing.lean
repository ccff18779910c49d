import UnixProgramming.Library.Rounds
import UnixProgramming.HSocket.Calls

/-! `Close` retries whatever the error was: when it returns, and whose descriptors it closes. -/

namespace UnixProgramming.HSocket

open Library Library.Transition

def EBADF : ℤ := 9

/-- `none` for a `close` that succeeds, otherwise the error it fails with. -/
abbrev Report := Option ℤ

def Report.outcome : Report → Outcome
  | none => .success 0
  | some e => .failure e

@[ext] structure Closing where
  ret : Option ℤ
  errno : ℤ
  deriving DecidableEq

def Close.call (errno : ℤ) : Closing :=
  ⟨none, errno⟩

-- The test is an assignment: it stores `EINTR` into `errno`.
def Close.round (s : Closing) (r : Report) : Closing :=
  match s.ret with
  | some _ => s
  | none =>
    if (Report.outcome r).value = -1 then
      if EINTR ≠ 0 then ⟨none, EINTR⟩ else ⟨some (-1), EINTR⟩
    else ⟨some (Report.outcome r).value, (Report.outcome r).errno s.errno⟩

section Returns

variable {s : Closing} {k : Stream' Report} {errno : ℤ} {n : ℕ}

lemma close_fixed (h : s.ret ≠ none) (r : Report) : Close.round s r = s := by
  cases hs : s.ret with
  | none => exact absurd hs h
  | some value => simp only [Close.round, hs]

lemma close_fails (h : s.ret = none) (e : ℤ) : Close.round s (some e) = ⟨none, EINTR⟩ := by
  have hvalue : (Report.outcome (some e)).value = -1 := rfl
  have hnonzero : EINTR ≠ 0 := by decide
  simp only [Close.round, h]
  rw [if_pos hvalue, if_pos hnonzero]

lemma close_succeeds (h : s.ret = none) : Close.round s none = ⟨some 0, s.errno⟩ := by
  simp only [Close.round, h]
  rfl

structure ClosesOnce (errno : ℤ) (k : Stream' Report) : Prop where
  retry : ∀ n, (feed Close.round (Close.call errno) k (n + 1)).ret = none → k.get n = some EINTR
  success : ∀ n, (feed Close.round (Close.call errno) k n).ret = none → k.get n = none →
    feed Close.round (Close.call errno) k (n + 1) =
      ⟨some 0, (feed Close.round (Close.call errno) k n).errno⟩
  failure : ∀ n e, (feed Close.round (Close.call errno) k n).ret = none → k.get n = some e →
    e ≠ EINTR → feed Close.round (Close.call errno) k (n + 1) = ⟨some (-1), e⟩
  ends : ∃ n, (feed Close.round (Close.call errno) k n).ret ≠ none

lemma close_running (h : ∀ m, m < n → k.get m ≠ none) :
    (feed Close.round (Close.call errno) k n).ret = none := by
  induction n with
  | zero => rfl
  | succ n ih =>
    have hrun := ih fun m hm => h m (Nat.lt_succ_of_lt hm)
    cases hk : k.get n with
    | none => exact absurd hk (h n n.lt_succ_self)
    | some e => rw [feed_succ, hk, close_fails hrun]

lemma close_ended {m : ℕ} (h : (feed Close.round (Close.call errno) k n).ret ≠ none)
    (hm : n ≤ m) : (feed Close.round (Close.call errno) k m).ret ≠ none := by
  induction m, hm using Nat.le_induction with
  | base => exact h
  | succ m _ ih => rwa [feed_succ, close_fixed ih]

lemma first_other (hfin : ∃ n, ∀ m, n ≤ m → k.get m ≠ some EINTR) :
    Comes (· = some EINTR) (· ≠ some EINTR) k := by
  classical
  have hex : ∃ n, k.get n ≠ some EINTR := by
    obtain ⟨n, hn⟩ := hfin
    exact ⟨n, hn n le_rfl⟩
  exact ⟨Nat.find hex, fun m hm => not_not.mp (Nat.find_min hex hm), Nat.find_spec hex⟩

theorem closes_once_iff (errno : ℤ) (k : Stream' Report)
    (hfin : ∃ n, ∀ m, n ≤ m → k.get m ≠ some EINTR) :
    ClosesOnce errno k ↔ Comes (· = some EINTR) (· = none) k := by
  constructor
  · intro h
    obtain ⟨n, hskip, hother⟩ := first_other hfin
    refine ⟨n, hskip, ?_⟩
    have hrun : (feed Close.round (Close.call errno) k n).ret = none := by
      apply close_running
      intro m hm
      rw [hskip m hm]
      exact Option.some_ne_none _
    cases hk : k.get n with
    | none => rfl
    | some e =>
      have hnext : (feed Close.round (Close.call errno) k (n + 1)).ret = none := by
        rw [feed_succ, hk, close_fails hrun]
      exact absurd (h.retry n hnext) hother
  · rintro ⟨n, hskip, hsuccess⟩
    have hrun : (feed Close.round (Close.call errno) k n).ret = none := by
      apply close_running
      intro m hm
      rw [hskip m hm]
      exact Option.some_ne_none _
    have hend : (feed Close.round (Close.call errno) k (n + 1)).ret ≠ none := by
      rw [feed_succ, hsuccess, close_succeeds hrun]
      exact Option.some_ne_none _
    have hlast : ∀ m, (feed Close.round (Close.call errno) k m).ret = none → m ≤ n := by
      intro m hm
      by_contra hlt
      exact close_ended hend (Nat.lt_of_not_le hlt) hm
    refine ⟨fun m hm => hskip m (hlast (m + 1) hm), fun m hm hk => ?_, fun m e hm hk hne => ?_,
      n + 1, hend⟩
    · rw [feed_succ, hk, close_succeeds hm]
    · cases (hlast m hm).lt_or_eq with
      | inl hlt => exact absurd (Option.some.inj (hk.symm.trans (hskip m hlt))) hne
      | inr heq =>
        rw [heq, hsuccess] at hk
        cases hk

theorem closes_once_interrupted :
    ClosesOnce 0 (.cons (some EINTR) (Stream'.const none)) ∧
      Comes (· = some EINTR) (· = none) (.cons (some EINTR) (Stream'.const (none : Report))) := by
  have hcomes : Comes (· = some EINTR) (· = none)
      (.cons (some EINTR) (Stream'.const (none : Report))) :=
    comes_head.mpr (Or.inr ⟨rfl, comes_head.mpr (Or.inl rfl)⟩)
  have hfin : ∃ n, ∀ m, n ≤ m →
      (Stream'.cons (some EINTR) (Stream'.const (none : Report))).get m ≠ some EINTR := by
    refine ⟨1, fun m hm => ?_⟩
    obtain ⟨l, rfl⟩ := Nat.exists_eq_add_of_le' hm
    exact nofun
  exact ⟨(closes_once_iff 0 _ hfin).mpr hcomes, hcomes⟩

theorem bad_descriptor_retried : (∀ m, (Stream'.const (some EBADF)).get m ≠ some EINTR) ∧
    ¬ ClosesOnce 0 (Stream'.const (some EBADF)) := by
  have hne : some EBADF ≠ some EINTR := by decide
  exact ⟨fun _ => hne, fun h => hne (h.retry 0 rfl)⟩

end Returns

section Reuse

/-- Open files are numbered in the order of their opening. -/
structure Table where
  file : ℤ → Option ℕ
  opened : ℕ
  fresh : ∀ fd n, file fd = some n → n < opened

def Table.release (t : Table) (fd : ℤ) : Table where
  file := Function.update t.file fd none
  opened := t.opened
  fresh := by
    intro a n ha
    by_cases h : a = fd
    · simp [h] at ha
    · exact t.fresh a n (by simpa [h] using ha)

def Table.open (t : Table) (fd : ℤ) : Option Table :=
  if 0 ≤ fd ∧ t.file fd = none then
    some {
      file := Function.update t.file fd (some t.opened)
      opened := t.opened + 1
      fresh := by
        intro a n ha
        by_cases h : a = fd
        · have hn : t.opened = n := by simpa [h] using ha
          exact hn ▸ Nat.lt_succ_self _
        · exact Nat.lt_succ_of_lt (t.fresh a n (by simpa [h] using ha)) }
  else none

/-- `released` are the files whose descriptor the attempts of `Close` have released. -/
structure Scene where
  table : Table
  closing : Closing
  released : List ℕ

inductive Event
  | opened (fd : ℤ)
  | close (r : Report)
  deriving DecidableEq

def openStep (s : Scene) (fd : ℤ) : Option Scene :=
  (s.table.open fd).map fun t => { s with table := t }

-- A descriptor that is open is released whatever `close` reports.
def closeStep (fd : ℤ) (s : Scene) (r : Report) : Option Scene :=
  if s.closing.ret = none then
    match s.table.file fd with
    | some n =>
      if r = some EBADF then none
      else some ⟨s.table.release fd, Close.round s.closing r, s.released ++ [n]⟩
    | none => if r = some EBADF then some { s with closing := Close.round s.closing r } else none
  else none

def closing (t : Table) (fd : ℤ) : System Scene Event where
  initial s := ∃ errno, s = ⟨t, Close.call errno, []⟩
  step s
    | .opened fd' => openStep s fd'
    | .close r => closeStep fd s r

def Spared (n : ℕ) (s : Scene) : Prop :=
  ∀ m ∈ s.released, m = n

def Vacant (fd : ℤ) (s : Scene) : Event → Prop
  | .opened _ => True
  | .close _ => s.released ≠ [] → s.table.file fd = none

instance (fd : ℤ) (s : Scene) : (e : Event) → Decidable (Vacant fd s e)
  | .opened _ => inferInstanceAs (Decidable True)
  | .close _ => inferInstanceAs (Decidable (_ → _))

variable {t : Table} {fd : ℤ} {n : ℕ} {s s' : Scene} {e : Event} {r : Report}

lemma openStep_cases {fd' : ℤ} (he : openStep s fd' = some s') :
    s.table.file fd' = none ∧ s'.released = s.released ∧
      s'.table.file = Function.update s.table.file fd' (some s.table.opened) ∧
      s'.table.opened = s.table.opened + 1 := by
  simp only [openStep, Table.open] at he
  split_ifs at he with h
  · obtain rfl := Option.some.inj he
    exact ⟨h.2, rfl, rfl, rfl⟩
  · cases he

lemma closeStep_cases (he : closeStep fd s r = some s') :
    (∃ m, s.table.file fd = some m ∧ s'.released = s.released ++ [m] ∧
      s'.table = s.table.release fd) ∨
    s.table.file fd = none ∧ s'.released = s.released ∧ s'.table = s.table := by
  simp only [closeStep] at he
  cases hfile : s.table.file fd with
  | some m =>
    simp only [hfile] at he
    split_ifs at he
    obtain rfl := Option.some.inj he
    exact Or.inl ⟨m, rfl, rfl, rfl⟩
  | none =>
    simp only [hfile] at he
    split_ifs at he
    obtain rfl := Option.some.inj he
    exact Or.inr ⟨rfl, rfl, rfl⟩

/-- Before and after the first release; a number that is reused denotes a younger file. -/
inductive Stage (fd : ℤ) (n : ℕ) (s : Scene) : Prop
  | held (released : s.released = []) (file : s.table.file fd = some n)
  | gone (released : s.released = [n]) (file : ∀ m, s.table.file fd = some m → n < m)
      (le : n < s.table.opened)

lemma Stage.spared (h : Stage fd n s) : Spared n s := by
  intro m hm
  cases h with
  | held released _ =>
    rw [released] at hm
    cases hm
  | gone released _ _ =>
    rw [released] at hm
    exact List.mem_singleton.mp hm

lemma open_stage {fd' : ℤ} (h : Stage fd n s) (he : openStep s fd' = some s') : Stage fd n s' := by
  obtain ⟨hnone, hrel, hfile, hopened⟩ := openStep_cases he
  cases h with
  | held released file =>
    have hne : fd ≠ fd' := by
      rintro rfl
      rw [hnone] at file
      cases file
    refine .held (hrel.trans released) ?_
    rw [hfile, Function.update_of_ne hne, file]
  | gone released file le =>
    refine .gone (hrel.trans released) (fun m hm => ?_) (by omega)
    rw [hfile] at hm
    by_cases hfd : fd = fd'
    · rw [hfd, Function.update_self] at hm
      rwa [← Option.some.inj hm]
    · rw [Function.update_of_ne hfd] at hm
      exact file m hm

lemma close_stage (h : Stage fd n s) (hc : Vacant fd s (.close r))
    (he : closeStep fd s r = some s') : Stage fd n s' := by
  have hfree : (s.table.release fd).file fd = none := by simp [Table.release]
  cases h with
  | held released file =>
    have hlt := s.table.fresh fd n file
    rcases closeStep_cases he with ⟨m, hm, hrel, htable⟩ | ⟨hnone, -⟩
    · obtain rfl := Option.some.inj (hm.symm.trans file)
      refine .gone (by rw [hrel, released, List.nil_append]) (fun l hl => ?_) (htable ▸ hlt)
      rw [htable, hfree] at hl
      cases hl
    · cases hnone.symm.trans file
  | gone released file le =>
    have hnone : s.table.file fd = none := by
      apply hc
      rw [released]
      exact List.cons_ne_nil n []
    rcases closeStep_cases he with ⟨m, hm, -⟩ | ⟨-, hrel, htable⟩
    · cases hnone.symm.trans hm
    · exact .gone (hrel.trans released) (htable ▸ file) (htable ▸ le)

lemma not_spared (h : Stage fd n s) (hc : ¬ Vacant fd s e)
    (he : (closing t fd).step s e = some s') : ¬ Spared n s' := by
  cases e with
  | opened fd' => exact absurd trivial hc
  | close r =>
    simp only [Vacant, Classical.not_imp] at hc
    obtain ⟨hreleased, hfile⟩ := hc
    cases h with
    | held released _ => exact absurd released hreleased
    | gone released file _ =>
      rcases closeStep_cases he with ⟨m, hm, hrel, -⟩ | ⟨hnone, -⟩
      · intro hspared
        have hmem : m ∈ s'.released := by
          rw [hrel]
          exact List.mem_append_right _ (List.mem_singleton_self m)
        exact (file m hm).ne' (hspared m hmem)
      · exact absurd hnone hfile

/-- Along every run, `Close` releases its own descriptor's file and no other exactly if
each of its retries finds the number still free. -/
theorem spared_iff_vacant (t : Table) (fd : ℤ) (n : ℕ) (hfd : t.file fd = some n) (errno : ℤ)
    (ls : List Event) (s : Scene)
    (hr : (closing t fd).Run ⟨t, Close.call errno, []⟩ ls s) :
    (closing t fd).Along (Spared n) ⟨t, Close.call errno, []⟩ ls ↔
      (closing t fd).Guarded (Vacant fd) ⟨t, Close.call errno, []⟩ ls := by
  apply System.along_iff_guarded (K := Stage fd n) (fun _ h => h.spared) ?_
    (fun _ _ _ h hc he => not_spared h hc he) (.held rfl hfd) hr
  intro s e s' h hc he
  cases e with
  | opened fd' => exact open_stage h he
  | close r => exact close_stage h hc he

def desk : Table where
  file fd := if fd = 3 then some 0 else none
  opened := 1
  fresh := by
    intro fd n h
    split_ifs at h
    exact Option.some.inj h ▸ Nat.zero_lt_one

theorem spared_iff_vacant_desk : (closing desk 3).Along (Spared 0) ⟨desk, Close.call 0, []⟩
    [.close (some EINTR), .opened 4, .close (some EBADF)] := by
  have hrun : ((closing desk 3).exec ⟨desk, Close.call 0, []⟩
      [.close (some EINTR), .opened 4, .close (some EBADF)]).isSome = true := by decide
  obtain ⟨s, hr⟩ := System.exists_run hrun
  exact (spared_iff_vacant desk 3 0 rfl 0 _ s hr).mpr (by decide)

theorem reused_number_closed : ∃ s, (closing desk 3).Run ⟨desk, Close.call 0, []⟩
    [.close (some EINTR), .opened 3, .close none] s ∧ ¬ Spared 0 s := by
  have hrun : ((closing desk 3).exec ⟨desk, Close.call 0, []⟩
      [.close (some EINTR), .opened 3, .close none]).map Scene.released = some [0, 1] := by decide
  obtain ⟨s, he, hs⟩ := Option.map_eq_some_iff.mp hrun
  refine ⟨s, System.run_iff_exec.mpr he, fun h => ?_⟩
  exact absurd (h 1 (by rw [hs]; decide)) (by decide)

end Reuse

end UnixProgramming.HSocket
