import UnixProgramming.FcntlLocking.News

/-! What the programs print about the locks of other processes. -/

namespace UnixProgramming.FcntlLocking

open Library Library.Transition

variable {size x : ℤ} {r : Request} {g : Region ℤ} {k : Lock ℤ ℤ}

lemma region_describe (h₀ : 0 ≤ k.region.start) (h₁ : k.region.stop ≤ OFFSET_MAX + 1) :
    region size (describe k) = .ok k.region := by
  obtain ⟨w, m, start, stop, hne⟩ := k
  simp only at h₀ h₁
  have hmax : ¬ start > OFFSET_MAX := by omega
  by_cases hstop : stop = OFFSET_MAX + 1
  · simp only [region, describe, Whence.base, zero_add, if_pos hstop, dif_neg hmax,
      if_neg (not_lt.mpr h₀), gt_iff_lt, lt_irrefl, dif_neg, not_false_eq_true]
    simp only [Except.ok.injEq, Region.mk.injEq, true_and]
    exact hstop.symm
  · have hlen : stop - start > 0 := by omega
    have hend : ¬ start + (stop - start - 1) > OFFSET_MAX := by omega
    simp only [region, describe, Whence.base, zero_add, if_neg hstop, dif_neg hmax,
      if_neg (not_lt.mpr h₀), dif_pos hlen, if_neg hend]
    simp only [Except.ok.injEq, Region.mk.injEq, true_and]
    omega

namespace Records

variable {s : State} {pid u : ℤ} {reply : Reply} {t : Table} {program : Program} {n : News}
  {held : ℤ → ℤ → Option Mode}

def Conflicts (size : ℤ) (held : ℤ → ℤ → Option Mode) (pid : ℤ) (r : Request) : Prop :=
  ∃ g m u x n, region size r.fl = .ok g ∧ r.fl.l_type.mode = some m ∧ u ≠ pid ∧ x ∈ g ∧
    held u x = some n ∧ (m = .write ∨ n = .write)

/-- The region is a whole run of bytes that a process holds in one mode. -/
structure Run (held : ℤ → Option Mode) (m : Option Mode) (g : Region ℤ) : Prop where
  inside : ∀ x ∈ g, held x = m
  before : held (g.start - 1) ≠ m
  after : held g.stop ≠ m

structure Denied (size : ℤ) (s : State) (pid : ℤ) (r : Request) (l_type : LockType)
    (l_start l_len : ℤ) (u : ℤ) : Prop where
  other : u ≠ pid
  live : s.live u = true
  locked : l_type ≠ .F_UNLCK
  incompatible : r.fl.l_type = .F_WRLCK ∨ l_type = .F_WRLCK
  region : ∃ g g', region size r.fl = .ok g ∧
    region size ⟨l_type, .SEEK_SET, l_start, l_len⟩ = .ok g' ∧ g'.Overlaps g ∧
      Run (s.announces size u) l_type.mode g'

lemma foldl_bounded {calls : List (Request × Reply)} {held : ℤ → Option Mode}
    (h : ∀ x, held x ≠ none → 0 ≤ x ∧ x ≤ OFFSET_MAX)
    (hx : calls.foldl (learn size) held x ≠ none) : 0 ≤ x ∧ x ≤ OFFSET_MAX := by
  induction calls generalizing held with
  | nil => exact h x hx
  | cons c calls ih => exact ih (fun y hy => learn_bounded (h y) hy) hx

lemma holds_bounded (h : s.holds size pid x ≠ none) : 0 ≤ x ∧ x ≤ OFFSET_MAX := by
  cases hp : s.procs pid with
  | none => simp [State.holds, hp] at h
  | some p =>
    rw [holds_proc hp, Process.holds] at h
    split_ifs at h with ha
    · exact foldl_bounded (fun y hy => absurd rfl hy) h
    · exact absurd rfl h

lemma Told.lock (h : Told size s) (hk : k ∈ s.table.locks) (hx : x ∈ k.region) :
    s.holds size k.owner x = some k.mode := by
  rw [← h]
  exact RecordLocks.view_eq_some.mpr ⟨k, hk, rfl, hx, rfl⟩

lemma Told.bounds (h : Told size s) (hk : k ∈ s.table.locks) :
    0 ≤ k.region.start ∧ k.region.stop ≤ OFFSET_MAX + 1 := by
  have hne := k.region.nonempty
  have hin : ∀ x ∈ k.region, 0 ≤ x ∧ x ≤ OFFSET_MAX := fun x hx =>
    holds_bounded ((h.lock hk hx).trans_ne (Option.some_ne_none k.mode))
  have hfirst := hin k.region.start ⟨le_refl _, hne⟩
  have hlast := hin (k.region.stop - 1) (by rw [Region.mem_iff]; omega)
  omega

lemma Told.blocked_iff (h : Told size s) {m : Mode} (hg : region size r.fl = .ok g)
    (hm : r.fl.l_type.mode = some m) :
    s.table.Blocked pid m g ↔ Conflicts size (s.holds size) pid r := by
  rw [RecordLocks.blocked_iff]
  constructor
  · rintro ⟨u, x, hne, hx, n, hn, hw⟩
    exact ⟨g, m, u, x, n, hg, hm, hne, hx, h u x ▸ hn, hw⟩
  · rintro ⟨g', m', u, x, n, hg', hm', hne, hx, hn, hw⟩
    cases hg.symm.trans hg'
    cases hm.symm.trans hm'
    exact ⟨u, x, hne, hx, n, (h u x).trans hn, hw⟩

/-- A lock of the table is a whole run, since neighbours of one owner and mode are merged. -/
lemma Told.run (h : Told size s) (hk : k ∈ s.table.locks) :
    Run (s.holds size k.owner) (some k.mode) k.region := by
  have hneighbour : ∀ x, s.holds size k.owner x = some k.mode →
      k.region.start ≤ x + 1 → x ≤ k.region.stop → x ∈ k.region := by
    intro x hx hstart hstop
    rw [← h] at hx
    obtain ⟨l, hl, ho, hxl, hm⟩ := RecordLocks.view_eq_some.mp hx
    rw [Region.mem_iff] at hxl
    have htouch : k.region.Touches l.region := ⟨by omega, by omega⟩
    obtain rfl := RecordLocks.touching_unique hk hl ho.symm hm.symm htouch
    exact hxl
  refine ⟨fun x hx => h.lock hk hx, fun hx => ?_, fun hx => ?_⟩
  · have hmem := hneighbour _ hx (by omega) (by have := k.region.nonempty; omega)
    rw [Region.mem_iff] at hmem
    omega
  · have hmem := hneighbour _ hx (by have := k.region.nonempty; omega) (le_refl _)
    rw [Region.mem_iff] at hmem
    omega

lemma mode_eq_none {l_type : LockType} : l_type.mode = none ↔ l_type = .F_UNLCK := by
  cases l_type <;> simp [LockType.mode]

lemma mode_eq_write {l_type : LockType} : l_type.mode = some .write ↔ l_type = .F_WRLCK := by
  cases l_type <;> simp [LockType.mode]

lemma Told.denied (h : Told size s) (hannounces : s.announces size = s.holds size) {m : Mode}
    (hg : region size r.fl = .ok g) (hm : r.fl.l_type.mode = some m) (hk : k ∈ s.table.locks)
    (hb : RecordLocks.Blocks pid m g k) :
    Denied size s pid r (describe k).l_type (describe k).l_start (describe k).l_len k.owner := by
  have hbounds := h.bounds hk
  have hmode : (describe k).l_type.mode = some k.mode := by
    cases hkm : k.mode <;> simp [describe, lockType, hkm, LockType.mode]
  have hlive : s.live k.owner = true := by
    by_contra hdead
    have hfirst := h.lock hk ⟨le_refl _, k.region.nonempty⟩
    rw [holds_dead (by simpa using hdead)] at hfirst
    cases hfirst
  refine ⟨hb.1, hlive, ?_, ?_, g, k.region, hg, region_describe hbounds.1 hbounds.2, hb.2.1, ?_⟩
  · intro hu
    rw [mode_eq_none.mpr hu] at hmode
    cases hmode
  · rw [← mode_eq_write, ← mode_eq_write, hm, hmode, Option.some.injEq, Option.some.injEq]
    exact hb.2.2
  · rw [hannounces, hmode]
    exact h.run hk

lemma region_lk : region size FileLock.lk = .ok ⟨0, OFFSET_MAX + 1, by decide⟩ :=
  rfl

lemma sleeping_calls {fd : ℤ} {calls : List (Request × Reply)}
    (h : FileLock.main fd (replies calls 0) = (calls.map Prod.fst, .sleeping)) :
    ∃ fl l_pid, calls = [(⟨.F_SETLK, FileLock.lk⟩, .done fl l_pid)] := by
  by_cases hfd : fd < 0
  · simp [FileLock.main, FileLock.request, hfd] at h
  · simp only [FileLock.main, FileLock.request, if_neg hfd, Prod.mk.injEq] at h
    obtain ⟨hcalls, hreport⟩ := h
    obtain ⟨⟨r, reply⟩, rfl, rfl⟩ := List.map_eq_singleton_iff.mp hcalls.symm
    cases reply with
    | failed errno => cases hreport
    | done fl l_pid => exact ⟨fl, l_pid, rfl⟩

def WholeFile (size : ℤ) (s : State) (pid : ℤ) : Prop :=
  (∀ x, 0 ≤ x → x ≤ OFFSET_MAX → s.holds size pid x = some .write) ∧
    ∀ u x, u ≠ pid → s.holds size u x = none

lemma sleeping_whole {fd : ℤ} (htold : Told size s) {p : Process} (hf : Follows p)
    (hp : s.procs pid = some p) (hprogram : p.program = .file_lock fd)
    (hpoint : p.point = .locked .sleeping) : WholeFile size s pid := by
  have hown : ∀ x, 0 ≤ x → x ≤ OFFSET_MAX → s.holds size pid x = some .write := by
    intro x h₀ h₁
    have hx : x ∈ (⟨0, OFFSET_MAX + 1, by decide⟩ : Region ℤ) := ⟨h₀, Int.lt_add_one_of_le h₁⟩
    obtain ⟨program, point, calls⟩ := p
    subst hprogram hpoint
    obtain ⟨fl, l_pid, rfl⟩ := sleeping_calls (hf (replies calls) agrees_replies)
    rw [holds_proc hp, holds_live rfl]
    simp only [List.foldl_cons, List.foldl_nil, learn, region_lk, reduceCtorEq, if_false,
      if_pos hx]
    rfl
  refine ⟨hown, fun u x hne => ?_⟩
  by_contra hx
  obtain ⟨h₀, h₁⟩ := holds_bounded hx
  exact hx (htold.exclusive hne (hown x h₀ h₁))

lemma conflicts_lk : Conflicts size (s.holds size) pid ⟨.F_SETLK, FileLock.lk⟩ ↔
    ∃ u x, u ≠ pid ∧ s.holds size u x ≠ none := by
  constructor
  · rintro ⟨_, _, u, x, n, _, _, hne, _, hn, _⟩
    exact ⟨u, x, hne, by simp [hn]⟩
  · rintro ⟨u, x, hne, hx⟩
    obtain ⟨n, hn⟩ := Option.ne_none_iff_exists'.mp hx
    obtain ⟨h₀, h₁⟩ := holds_bounded hx
    exact ⟨_, .write, u, x, n, region_lk, rfl, hne, ⟨h₀, Int.lt_add_one_of_le h₁⟩, hn, .inl rfl⟩

lemma fcntl_lk : (∃ c, fcntl size s.table pid ⟨.F_SETLK, FileLock.lk⟩ .act = some c) ↔
    ¬ s.table.Blocked pid .write ⟨0, OFFSET_MAX + 1, by decide⟩ := by
  have hcall : fcntl size s.table pid ⟨.F_SETLK, FileLock.lk⟩ .act =
      (s.table.set pid .write ⟨0, OFFSET_MAX + 1, by decide⟩).map fun t =>
        (.done FileLock.lk 0, t) := rfl
  rw [hcall]
  constructor
  · rintro ⟨c, hc⟩
    obtain ⟨t, ht, -⟩ := Option.map_eq_some_iff.mp hc
    exact RecordLocks.set_unblocked ht
  · intro hb
    obtain ⟨t, ht⟩ := RecordLocks.exists_set hb
    exact ⟨_, by rw [ht]; rfl⟩

/-- `file_lock.c` can get its lock exactly when nobody else holds a byte, and from then on
nobody else gets one for as long as it sleeps. -/
theorem whole_file_locked (size : ℤ) (s : State) (pid fd : ℤ) (p : Process)
    (h : (system size).Reachable s) (hp : s.procs pid = some p)
    (hprogram : p.program = .file_lock fd) :
    (p.point = .locked .sleeping → WholeFile size s pid) ∧
    (∀ r, p.point = .locking r →
      ((∃ s', step size s (.fcntl pid .act) = some s') ↔
        ∀ u x, u ≠ pid → s.holds size u x = none)) := by
  have htold : Told size s := (told_inductive size).reachable h
  have hf : Follows p := (follows_inductive size).reachable h pid p hp
  refine ⟨sleeping_whole htold hf hp hprogram, fun r hpoint => ?_⟩
  obtain ⟨program, point, calls⟩ := p
  subst hprogram hpoint
  obtain ⟨hr, -⟩ := hf
  simp only [FileLock.request, Option.ite_none_left_eq_some, Option.some.injEq] at hr
  obtain ⟨-, rfl⟩ := hr
  have hcalled : (∃ s', step size s (.fcntl pid .act) = some s') ↔
      ∃ c, fcntl size s.table pid ⟨.F_SETLK, FileLock.lk⟩ .act = some c := by
    simp only [step, hp, Option.bind_some, fcntlStep, Point.request, Point.answer,
      Option.map_some, Option.bind_eq_some_iff, Option.some.injEq]
    constructor
    · rintro ⟨_, c, hc, -⟩
      exact ⟨c, hc⟩
    · rintro ⟨c, hc⟩
      exact ⟨_, c, hc, rfl⟩
  rw [hcalled, fcntl_lk, htold.blocked_iff (r := ⟨.F_SETLK, FileLock.lk⟩) region_lk rfl,
    conflicts_lk]
  simp only [not_exists, not_and, not_not]

theorem whole_file_locked_alone : ∃ s p, (system 0).Reachable s ∧ s.procs 7 = some p ∧
    p.program = .file_lock 3 ∧ p.point = .locked .sleeping ∧ WholeFile 0 s 7 := by
  have hrun : ((system 0).exec start
      [.spawn 7 (.file_lock 3), .spawn 2 (clerk "s r 5 1\n"), .fcntl 7 .act, .read 2,
        .fcntl 2 (.fail EACCES)]).map
      (fun s => (s.procs 7).map fun p => (p.program, p.point)) =
      some (some (.file_lock 3, .locked .sleeping)) := by
    decide +kernel
  obtain ⟨s, hs, he⟩ := System.Reachable.observe rfl hrun
  obtain ⟨p, hp, he⟩ := Option.map_eq_some_iff.mp he
  obtain ⟨hprogram, hpoint⟩ := Prod.mk.inj he
  exact ⟨s, p, hs, hp, hprogram, hpoint,
    (whole_file_locked 0 s 7 3 p hs hp hprogram).1 hpoint⟩

end Records

end UnixProgramming.FcntlLocking
