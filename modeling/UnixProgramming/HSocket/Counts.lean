import UnixProgramming.HSocket.Interrupts

/-! What `Read` and `Write` report of a count that the kernel gives as a `ssize_t`. -/

namespace UnixProgramming.HSocket

open Library

/-- The first call that is not interrupted is the last one, and its outcome is returned. -/
structure Reports (s : Progress) (k : Stream' Outcome) : Prop where
  waits : ∀ n, (∀ m, m < n → k.get m = .failure EINTR) →
    ¬ (feed Progress.round s k n).Returned
  result : ∀ n, (∀ m, m < n → k.get m = .failure EINTR) → k.get n ≠ .failure EINTR →
    (feed Progress.round s k (n + 1)).phase = .returned (k.get n).value

def Outcome.Oversized (o : Outcome) : Prop :=
  ∃ n : ℕ, o = .success n ∧ INT_MAX < n

def Narrows (k : Stream' Outcome) : Prop :=
  Comes (· = .failure EINTR) Outcome.Oversized k

variable {s : Progress} {c : Call} {o : Outcome} {k : Stream' Outcome} {w : World} {errno : ℤ}
  {moved : World → ℕ} {n : ℕ}

lemma retry_waits (hc : Plain c moved) (h : s.phase = .running c)
    (hk : ∀ m, m < n → k.get m = .failure EINTR) :
    (feed Progress.round s k n).phase = .running c := by
  induction n with
  | zero => exact h
  | succ n ih =>
    have hrun := ih fun m hm => hk m (Nat.lt_succ_of_lt hm)
    rw [feed_succ, hk n n.lt_succ_self, retry_interrupted hc hrun]

lemma int_count : int (n : ℤ) = n ↔ ¬ INT_MAX < (n : ℤ) := by
  have hneg : -(2 ^ 31) ≤ (n : ℤ) := by omega
  rw [int_eq_iff, not_lt, and_iff_right hneg]

lemma count_ne_neg_one (h : int (n : ℤ) = n) : int (n : ℤ) ≠ -1 := by
  rw [h]
  omega

lemma retry_reports (hc : Plain c moved) (h : s.phase = .running c) (ho : o ≠ .failure EINTR)
    (hn : ¬ o.Oversized) : (s.round o).phase = .returned o.value := by
  cases o with
  | failure e =>
    have he : e ≠ EINTR := fun heq => ho (congrArg Outcome.failure heq)
    rw [retry_fails hc h he]
    rfl
  | success n =>
    have hsame : int (n : ℤ) = n := int_count.mpr fun hlt => hn ⟨n, rfl, hlt⟩
    rw [retry_succeeds hc h (count_ne_neg_one hsame), hsame]
    rfl

lemma retry_narrows (hc : Plain c moved) (h : s.phase = .running c) (hn : o.Oversized) :
    (s.round o).phase ≠ .returned o.value := by
  obtain ⟨n, rfl, hlt⟩ := hn
  have hdiff : int (n : ℤ) ≠ n := fun hsame => int_count.mp hsame hlt
  intro hret
  by_cases hone : int (n : ℤ) = -1
  · rw [retry_overlong hc h hone] at hret
    by_cases he : s.errno = EINTR
    · rw [if_pos he] at hret
      cases hret
    · rw [if_neg he] at hret
      have hvalue : (-1 : ℤ) = n := Phase.returned.inj hret
      omega
  · rw [retry_succeeds hc h hone] at hret
    exact hdiff (Phase.returned.inj hret)

lemma retry_reports_iff (hc : Plain c moved) (h : s.phase = .running c) :
    Reports s k ↔ ¬ Narrows k := by
  constructor
  · rintro hreports ⟨n, hskip, hbig⟩
    have hrun := retry_waits hc h hskip
    have hne : k.get n ≠ .failure EINTR := by
      obtain ⟨m, hm, -⟩ := hbig
      rw [hm]
      exact Outcome.noConfusion
    have hret := hreports.result n hskip hne
    rw [feed_succ] at hret
    exact retry_narrows hc hrun hbig hret
  · intro hfits
    constructor
    · rintro n hskip ⟨value, hret⟩
      cases (retry_waits hc h hskip).symm.trans hret
    · intro n hskip hne
      rw [feed_succ]
      exact retry_reports hc (retry_waits hc h hskip) hne fun hbig => hfits ⟨n, hskip, hbig⟩

theorem reports_iff_not_narrows (sz : ℕ) (w : World) (errno : ℤ) (k : Stream' Outcome) :
    (Reports ((Wrapper.read sz).call w errno) k ↔ ¬ Narrows k) ∧
      (Reports ((Wrapper.write sz).call w errno) k ↔ ¬ Narrows k) :=
  ⟨retry_reports_iff read_plain rfl, retry_reports_iff write_plain rfl⟩

/-- A write of `2 ^ 31` bytes succeeds and is reported as a negative count. -/
theorem write_count_negative :
    (Call.write (2 ^ 31)).Allows ⟨[], 0, fun _ => 0, []⟩ (.success (2 ^ 31)) ∧
      (feed Progress.round ((Wrapper.write (2 ^ 31)).call ⟨[], 0, fun _ => 0, []⟩ 0)
        (Stream'.const (.success (2 ^ 31))) 1).phase = .returned (-(2 ^ 31)) ∧
      ¬ Reports ((Wrapper.write (2 ^ 31)).call ⟨[], 0, fun _ => 0, []⟩ 0)
        (Stream'.const (.success (2 ^ 31))) := by
  have hret : (feed Progress.round ((Wrapper.write (2 ^ 31)).call ⟨[], 0, fun _ => 0, []⟩ 0)
      (Stream'.const (.success (2 ^ 31))) 1).phase = .returned (-(2 ^ 31)) := by
    decide
  refine ⟨by decide, hret, fun hreports => ?_⟩
  have hvalue := hreports.result 0 (fun m hm => absurd hm m.not_lt_zero) Outcome.noConfusion
  cases hret.symm.trans hvalue

end UnixProgramming.HSocket
