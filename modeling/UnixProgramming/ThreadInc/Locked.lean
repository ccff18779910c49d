import UnixProgramming.ThreadInc.Bounds
import UnixProgramming.Library.Monitor

/-! `thread_inc.c` with `USE_LOCK`: each thread has the mutex while it runs its loop, so no
increment is lost, and the program always comes to print their number. -/

namespace UnixProgramming.ThreadInc.Locked

open Library Library.Transition

inductive Guard
  | before
  | inside
  | after
  deriving DecidableEq, Repr

/-- What the program without `USE_LOCK` has, the mutex, and how far each thread is with it. -/
structure State where
  inc : ThreadInc.State
  mutex : Monitor Thread
  guard : Thread → Guard

def start : State where
  inc := ThreadInc.start
  mutex := .free
  guard _ := .before

inductive Label
  | inc (l : ThreadInc.Label)
  | lock (t : Thread)
  | unlock (t : Thread)
  deriving DecidableEq, Repr

def returns (s : State) : Bool :=
  match s.inc.main with
  | .join t => s.guard t = .after
  | _ => true

def allowed (s : State) : ThreadInc.Label → Bool
  | .main => returns s
  | .create | .createFails => true
  | .threadFunc t => s.guard t = .inside

def lockStep (s : State) (t : Thread) : Option State :=
  if (s.inc.thread t).pc = .start ∧ s.guard t = .before then
    (s.mutex.lock t).map fun m =>
      { s with mutex := m, guard := Function.update s.guard t .inside }
  else none

def unlockStep (s : State) (t : Thread) : Option State :=
  if (s.inc.thread t).pc = .returned ∧ s.guard t = .inside then
    (s.mutex.unlock t).map fun m =>
      { s with mutex := m, guard := Function.update s.guard t .after }
  else none

def step (arg : Option (List UInt8)) (s : State) (l : Label) : Option State :=
  if s.inc.main = .exited ∨ s.inc.main = .failed then none
  else match l with
    | .inc l =>
      if allowed s l then (ThreadInc.step arg s.inc l).map fun inc => { s with inc := inc }
      else none
    | .lock t => lockStep s t
    | .unlock t => unlockStep s t

def system (arg : Option (List UInt8)) : System State Label where
  initial s := s = start
  step := step arg

/-- Where a thread with its mutex is, when `glob` has counted its and the other's stores. -/
def Placed (N glob : ℤ) (v : Local) : Guard → Prop
  | .before => (v.pc = .unborn ∨ v.pc = .start) ∧ v.i = 0
  | .inside =>
    match v.pc with
    | .unborn => False
    | .start => v.i = 0
    | .test => v.loops = N ∧ v.i ≤ N
    | .load => v.loops = N ∧ v.i < N
    | .store => v.loops = N ∧ v.i < N ∧ v.loaded = glob
    | .returned => v.i = N
  | .after => v.pc = .returned ∧ v.i = N

structure Kept (N : ℤ) (s : State) : Prop where
  owner : ∀ t, s.mutex.owner = some t ↔ s.guard t = .inside
  awake : s.mutex.blocked = ∅ ∧ s.mutex.woken = ∅
  placed : ∀ t, Placed N s.inc.glob (s.inc.thread t) (s.guard t)
  glob : s.inc.glob = int s.inc.total
  joined : Joined N s.inc
  given : s.inc.main = .join .thr2 → s.guard .thr1 = .after
  born : s.inc.main = .create .thr2 → (s.inc.thread .thr1).pc ≠ .unborn
  running : ∀ u, s.inc.main = .join u → ∀ t, (s.inc.thread t).pc ≠ .unborn
  printed : ∀ v ∈ s.inc.printed, v = int (2 * N)

variable {arg : Option (List UInt8)} {s s' : State} {t u : Thread} {v : Local} {N : ℤ}

lemma start_kept (N : ℤ) : Kept N start where
  owner t := by simp [start]
  awake := ⟨rfl, rfl⟩
  placed t := ⟨Or.inl rfl, rfl⟩
  glob := by decide
  joined _ := rfl
  given h := by cases h
  born h := by cases h
  running u h := by cases h
  printed v h := by cases h

lemma Kept.alone (h : Kept N s) (ht : s.guard t = .inside) (hu : s.guard u = .inside) :
    u = t := by
  have hot := (h.owner t).mpr ht
  have hou := (h.owner u).mpr hu
  exact Option.some.inj (hou.symm.trans hot)

lemma Placed.congr {g : Guard} {x x' : ℤ} (h : Placed N x v g) (hg : g ≠ .inside) :
    Placed N x' v g := by
  cases g with
  | inside => exact absurd rfl hg
  | before | after => exact h

lemma lock_kept (h : Kept N s) (he : lockStep s t = some s') : Kept N s' := by
  simp only [lockStep, Option.ite_none_right_eq_some] at he
  obtain ⟨⟨hpc, hg⟩, he⟩ := he
  obtain ⟨m, hm, rfl⟩ := Option.map_eq_some_iff.mp he
  obtain ⟨⟨hfree, -⟩, ho, hb, hw⟩ := Monitor.lock_eq_some.mp hm
  have hplaced := h.placed t
  rw [hg] at hplaced
  refine ⟨fun u => ?_, ⟨hb.trans h.awake.1, hw.trans h.awake.2⟩, fun u => ?_, h.glob, h.joined,
    fun hj => ?_, h.born, h.running, h.printed⟩
  · by_cases hu : u = t
    · simp [ho, hu]
    · have hfalse := (h.owner u).not.mp (by simp [hfree])
      simpa [ho, hu, Ne.symm hu] using hfalse
  · by_cases hu : u = t
    · subst hu
      simp only [Function.update_self, Placed, hpc]
      exact hplaced.2
    · simpa [hu] using h.placed u
  · have hne : Thread.thr1 ≠ t := by
      rintro rfl
      cases hg.symm.trans (h.given hj)
    simpa [hne] using h.given hj

lemma unlock_kept (h : Kept N s) (he : unlockStep s t = some s') : Kept N s' := by
  simp only [unlockStep, Option.ite_none_right_eq_some] at he
  obtain ⟨⟨hpc, hg⟩, he⟩ := he
  obtain ⟨m, hm, rfl⟩ := Option.map_eq_some_iff.mp he
  obtain ⟨hown, ho, hb, hw⟩ := Monitor.unlock_eq_some.mp hm
  have hplaced := h.placed t
  rw [hg] at hplaced
  simp only [Placed, hpc] at hplaced
  refine ⟨fun u => ?_, ⟨hb.trans h.awake.1, hw.trans h.awake.2⟩, fun u => ?_, h.glob, h.joined,
    fun hj => ?_, h.born, h.running, h.printed⟩
  · by_cases hu : u = t
    · simp [ho, hu]
    · have hfalse := (h.owner u).not.mp (by simpa [hown] using Ne.symm hu)
      simpa [ho, hu] using hfalse
  · by_cases hu : u = t
    · subst hu
      simp only [Function.update_self, Placed]
      exact ⟨hpc, hplaced⟩
    · simpa [hu] using h.placed u
  · by_cases hu : Thread.thr1 = t
    · simp [← hu]
    · simpa [hu] using h.given hj

lemma Kept.run {x : ℤ} (h : Kept N s) (hg : s.guard t = .inside)
    (hu : (s.inc.thread t).pc ≠ .unborn) (hr : (s.inc.thread t).pc ≠ .returned)
    (hv : Placed N x v .inside) (hx : x = int (s.inc.set t v).total) :
    Kept N { s with inc := { s.inc.set t v with glob := x } } := by
  have hborn : ∀ w, (s.inc.thread w).pc ≠ .unborn → ((s.inc.set t v).thread w).pc ≠ .unborn := by
    intro w hw
    by_cases hwt : w = t
    · subst hwt
      rw [set_self]
      intro hpc
      simp [Placed, hpc] at hv
    · rwa [set_of_ne hwt]
  refine ⟨h.owner, h.awake, fun u => ?_, hx, h.joined.set hu hr, h.given,
    fun hm => hborn _ (h.born hm), fun u hm w => hborn w (h.running u hm w), h.printed⟩
  by_cases hut : u = t
  · subst hut
    simp only [set_self, hg]
    exact hv
  · have hplaced := h.placed u
    simp only [set_of_ne hut]
    apply hplaced.congr
    intro hgu
    exact hut (h.alone hg hgu)

lemma set_same (hi : v.i = (s.inc.thread t).i) : (s.inc.set t v).total = s.inc.total := by
  rw [set_total, hi, Int.sub_add_cancel]

lemma threadStep_kept {inc : ThreadInc.State} (h : Kept N s) (hN : 0 ≤ N)
    (hx : s.inc.main ≠ .exited) (hf : s.inc.main ≠ .failed) (hg : s.guard t = .inside)
    (he : threadStep s.inc t = some inc) : Kept N { s with inc := inc } := by
  have hplaced := h.placed t
  rw [hg] at hplaced
  cases hpc : (s.inc.thread t).pc with
  | start =>
    simp only [threadStep, hpc, Option.some.injEq] at he
    simp only [Placed, hpc] at hplaced
    have hloops := h.joined.loops_eq hpc hx hf
    rw [← he]
    refine h.run (x := s.inc.glob) hg (by simp [hpc]) (by simp [hpc]) ⟨hloops, by simpa using hN⟩ ?_
    rw [set_same hplaced.symm]
    exact h.glob
  | test =>
    simp only [threadStep, hpc, Option.some.injEq] at he
    simp only [Placed, hpc] at hplaced
    rw [← he]
    refine h.run (x := s.inc.glob) hg (by simp [hpc]) (by simp [hpc]) ?_ ?_
    · by_cases hlt : ((s.inc.thread t).i : ℤ) < (s.inc.thread t).loops
      · simp only [if_pos hlt, Placed]
        exact ⟨hplaced.1, hplaced.1 ▸ hlt⟩
      · simp only [if_neg hlt, Placed]
        exact Int.le_antisymm hplaced.2 (hplaced.1 ▸ Int.not_lt.mp hlt)
    · exact h.glob.trans (congrArg int (set_same (by rfl)).symm)
  | load =>
    simp only [threadStep, hpc, Option.some.injEq] at he
    simp only [Placed, hpc] at hplaced
    rw [← he]
    refine h.run (x := s.inc.glob) hg (by simp [hpc]) (by simp [hpc])
      ⟨hplaced.1, hplaced.2, rfl⟩ ?_
    exact h.glob.trans (congrArg int (set_same (by rfl)).symm)
  | store =>
    simp only [threadStep, hpc, Option.some.injEq] at he
    simp only [Placed, hpc] at hplaced
    obtain ⟨hloops, hlt, hloaded⟩ := hplaced
    rw [← he]
    refine h.run hg (by simp [hpc]) (by simp [hpc]) ⟨hloops, by simpa using hlt⟩ ?_
    -- nobody has stored since the load
    rw [hloaded, h.glob, int_add, set_total]
    congr 1
    push_cast
    ring
  | unborn | returned => simp [threadStep, hpc] at he

lemma Kept.main {inc : ThreadInc.State} (h : Kept N s) (hglob : inc.glob = s.inc.glob)
    (hthread : inc.thread = s.inc.thread) (hj : Joined N inc)
    (hgiven : inc.main = .join .thr2 → s.guard .thr1 = .after)
    (hborn : inc.main ≠ .create .thr2)
    (hrunning : ∀ u, inc.main = .join u → ∀ t, (s.inc.thread t).pc ≠ .unborn)
    (hprinted : ∀ v ∈ inc.printed, v = int (2 * N)) : Kept N { s with inc := inc } := by
  have htotal : inc.total = s.inc.total := by
    rw [ThreadInc.State.total, hthread, ThreadInc.State.total]
  refine ⟨h.owner, h.awake, fun t => ?_, ?_, hj, hgiven, fun hm => absurd hm hborn,
    fun u hm t => ?_, hprinted⟩
  · simp only [hglob, hthread]
    exact h.placed t
  · simp only [hglob, htotal]
    exact h.glob
  · simp only [hthread]
    exact hrunning u hm t

lemma Kept.done (h : Kept N s) (hpc : (s.inc.thread t).pc = .returned) :
    ((s.inc.thread t).i : ℤ) = N := by
  have hplaced := h.placed t
  cases hg : s.guard t with
  | before => simp [Placed, hg, hpc] at hplaced
  | inside => simpa only [Placed, hg, hpc] using hplaced
  | after =>
    rw [hg] at hplaced
    exact hplaced.2

lemma mainStep_kept {inc : ThreadInc.State} (h : Kept (loops arg) s) (hr : returns s = true)
    (he : mainStep arg s.inc = some inc) : Kept (loops arg) { s with inc := inc } := by
  have hj := h.joined
  cases hpc : s.inc.main with
  | init =>
    simp only [Joined, hpc] at hj
    simp only [mainStep, hpc, initStep, Option.some.injEq] at he
    split_ifs at he
    · subst he
      exact h.main rfl rfl trivial (by simp) (by simp) (by simp) h.printed
    · subst he
      exact h.main rfl rfl ⟨rfl, hj⟩ (by simp) (by simp) (by simp) h.printed
  | join t =>
    simp only [returns, hpc, decide_eq_true_eq] at hr
    cases t with
    | thr1 =>
      simp only [Joined, hpc] at hj
      simp only [mainStep, hpc, Option.ite_none_right_eq_some, Option.some.injEq] at he
      obtain ⟨hret, rfl⟩ := he
      exact h.main rfl rfl ⟨hj, hret⟩ (fun _ => hr) (by simp) (fun u _ => h.running _ hpc)
        h.printed
    | thr2 =>
      simp only [Joined, hpc] at hj
      simp only [mainStep, hpc, Option.ite_none_right_eq_some, Option.some.injEq] at he
      obtain ⟨hret, rfl⟩ := he
      refine h.main rfl rfl (fun t => ?_) (by simp) (by simp) (by simp) h.printed
      cases t with
      | thr1 => exact hj.2
      | thr2 => exact hret
  | print =>
    simp only [Joined, hpc] at hj
    simp only [mainStep, hpc, Option.some.injEq] at he
    subst he
    refine h.main rfl rfl trivial (by simp) (by simp) (by simp) fun v hv => ?_
    obtain rfl := Option.some.inj hv
    rw [h.glob, ThreadInc.State.total, h.done (hj .thr1), h.done (hj .thr2), Int.two_mul]
  | create t | exited | failed => simp [mainStep, hpc] at he

lemma createStep_kept {inc : ThreadInc.State} (h : Kept N s) (he : createStep s.inc = some inc) :
    Kept N { s with inc := inc } := by
  have hj := h.joined
  have hplaced : ∀ t, (s.inc.thread t).pc = .unborn → ∀ u, Placed N s.inc.glob
      ((s.inc.set t { s.inc.thread t with pc := .start }).thread u) (s.guard u) := by
    intro t hu u
    have hold := h.placed u
    by_cases hut : u = t
    · subst hut
      rw [set_self]
      cases hg : s.guard u with
      | before =>
        rw [hg] at hold
        exact ⟨Or.inr rfl, hold.2⟩
      | inside | after => simp [Placed, hg, hu] at hold
    · rwa [set_of_ne hut]
  have htotal : ∀ t, (s.inc.set t { s.inc.thread t with pc := .start }).total = s.inc.total :=
    fun t => set_same rfl
  cases hpc : s.inc.main with
  | create t =>
    simp only [createStep, hpc, Option.some.injEq] at he
    subst he
    cases t with
    | thr1 =>
      simp only [Joined, hpc] at hj
      have h₂ : ((s.inc.set .thr1 { s.inc.thread .thr1 with pc := .start }).thread .thr2).pc =
          .unborn := by
        rw [set_of_ne (by decide)]
        exact hj.2 .thr2
      refine ⟨h.owner, h.awake, hplaced .thr1 (hj.2 .thr1), h.glob.trans ?_, ⟨hj.1, h₂⟩,
        by simp, fun _ => ?_, by simp, h.printed⟩
      · exact congrArg int (htotal .thr1).symm
      · simp
    | thr2 =>
      have hborn := h.born hpc
      simp only [Joined, hpc] at hj
      refine ⟨h.owner, h.awake, hplaced .thr2 hj.2, h.glob.trans ?_, hj.1, by simp, by simp,
        fun u _ t => ?_, h.printed⟩
      · exact congrArg int (htotal .thr2).symm
      · cases t with
        | thr1 => simpa using hborn
        | thr2 => simp
  | init | join t | print | exited | failed => simp [createStep, hpc] at he

lemma step_kept {l : Label} (h : Kept (loops arg) s) (hN : 0 ≤ loops arg)
    (he : step arg s l = some s') : Kept (loops arg) s' := by
  simp only [step, Option.ite_none_left_eq_some, not_or] at he
  obtain ⟨⟨hx, hf⟩, he⟩ := he
  cases l with
  | lock t => exact lock_kept h he
  | unlock t => exact unlock_kept h he
  | inc l =>
    simp only [Option.ite_none_right_eq_some] at he
    obtain ⟨ha, he⟩ := he
    obtain ⟨inc, hinc, rfl⟩ := Option.map_eq_some_iff.mp he
    simp only [ThreadInc.step, hx, hf, or_self, if_false] at hinc
    cases l with
    | main => exact mainStep_kept h ha hinc
    | create => exact createStep_kept h hinc
    | createFails =>
      cases hpc : s.inc.main with
      | create t =>
        simp only [createFails, hpc, Option.some.injEq] at hinc
        subst hinc
        exact h.main rfl rfl trivial (by simp) (by simp) (by simp) h.printed
      | init | join t | print | exited | failed => simp [createFails, hpc] at hinc
    | threadFunc t => exact threadStep_kept h hN hx hf (by simpa [allowed] using ha) hinc

lemma kept_inductive (hN : 0 ≤ loops arg) : (system arg).Inductive (Kept (loops arg)) where
  initial _ hs := hs ▸ start_kept _
  step _ _ _ h he := step_kept h hN he

section Completion

def mainLeft : MainPc → ℕ
  | .init => 6
  | .create .thr1 => 5
  | .create .thr2 => 4
  | .join .thr1 => 3
  | .join .thr2 => 2
  | .print => 1
  | .exited | .failed => 0

/-- The steps of a thread that are left, of which each iteration takes three. -/
def threadLeft (k : ℕ) (v : Local) : Guard → ℕ
  | .before => 3 * k + 4
  | .inside =>
    match v.pc with
    | .unborn => 0
    | .start => 3 * k + 3
    | .test => 3 * (k - v.i) + 2
    | .load => 3 * (k - v.i) + 1
    | .store => 3 * (k - v.i)
    | .returned => 1
  | .after => 0

def left (k : ℕ) (s : State) : ℕ :=
  mainLeft s.inc.main + threadLeft k (s.inc.thread .thr1) (s.guard .thr1) +
    threadLeft k (s.inc.thread .thr2) (s.guard .thr2)

variable {k : ℕ}

lemma left_thread {x : ℤ} {m : Monitor Thread} {g : Guard}
    (hlt : threadLeft k v g + 1 ≤ threadLeft k (s.inc.thread t) (s.guard t)) :
    left k ⟨{ s.inc.set t v with glob := x }, m, Function.update s.guard t g⟩ + 1 ≤ left k s := by
  cases t with
  | thr1 =>
    simp only [left, ThreadInc.State.set, Function.update_self,
      Function.update_of_ne (show Thread.thr2 ≠ .thr1 by decide)]
    omega
  | thr2 =>
    simp only [left, ThreadInc.State.set, Function.update_self,
      Function.update_of_ne (show Thread.thr1 ≠ .thr2 by decide)]
    omega

lemma run_left {x : ℤ} (hg : s.guard t = .inside)
    (hlt : threadLeft k v .inside + 1 ≤ threadLeft k (s.inc.thread t) .inside) :
    left k { s with inc := { s.inc.set t v with glob := x } } + 1 ≤ left k s := by
  have hlt' : threadLeft k v .inside + 1 ≤ threadLeft k (s.inc.thread t) (s.guard t) := by
    rw [hg]
    exact hlt
  have hlast := left_thread (x := x) (m := s.mutex) hlt'
  rwa [← hg, Function.update_eq_self] at hlast

lemma guard_left {m : Monitor Thread} {g : Guard}
    (hlt : threadLeft k (s.inc.thread t) g + 1 ≤ threadLeft k (s.inc.thread t) (s.guard t)) :
    left k { s with mutex := m, guard := Function.update s.guard t g } + 1 ≤ left k s := by
  have hlast := left_thread (x := s.inc.glob) (m := m) hlt
  rwa [ThreadInc.State.set, Function.update_eq_self] at hlast

lemma threadStep_left {inc : ThreadInc.State} (h : Kept k s) (hg : s.guard t = .inside)
    (he : threadStep s.inc t = some inc) : left k { s with inc := inc } + 1 ≤ left k s := by
  have hplaced := h.placed t
  rw [hg] at hplaced
  cases hpc : (s.inc.thread t).pc with
  | start | load =>
    simp only [threadStep, hpc, Option.some.injEq] at he
    subst he
    apply run_left (x := s.inc.glob) hg
    simp only [threadLeft, hpc]
    omega
  | test =>
    simp only [threadStep, hpc, Option.some.injEq] at he
    subst he
    apply run_left (x := s.inc.glob) hg
    simp only [threadLeft, hpc]
    split_ifs <;> simp
  | store =>
    simp only [threadStep, hpc, Option.some.injEq] at he
    simp only [Placed, hpc] at hplaced
    subst he
    apply run_left hg
    simp only [threadLeft, hpc]
    omega
  | unborn | returned => simp [threadStep, hpc] at he

lemma main_left {inc : ThreadInc.State} (hthread : inc.thread = s.inc.thread)
    (hlt : mainLeft inc.main + 1 ≤ mainLeft s.inc.main) :
    left k { s with inc := inc } + 1 ≤ left k s := by
  simp only [left, hthread]
  omega

lemma mainStep_left {inc : ThreadInc.State} (he : mainStep arg s.inc = some inc) :
    left k { s with inc := inc } + 1 ≤ left k s := by
  cases hpc : s.inc.main with
  | init =>
    simp only [mainStep, hpc, initStep, Option.some.injEq] at he
    split_ifs at he
    · subst he
      exact main_left rfl (by simp [hpc, mainLeft])
    · subst he
      exact main_left rfl (by simp [hpc, mainLeft])
  | join t =>
    cases t with
    | thr1 | thr2 =>
      simp only [mainStep, hpc, Option.ite_none_right_eq_some, Option.some.injEq] at he
      obtain ⟨-, rfl⟩ := he
      exact main_left rfl (by simp [hpc, mainLeft])
  | print =>
    simp only [mainStep, hpc, Option.some.injEq] at he
    subst he
    exact main_left rfl (by simp [hpc, mainLeft])
  | create t | exited | failed => simp [mainStep, hpc] at he

lemma createStep_left {inc : ThreadInc.State} (h : Kept k s) (he : createStep s.inc = some inc) :
    left k { s with inc := inc } + 1 ≤ left k s := by
  have hj := h.joined
  have hbefore : ∀ t, (s.inc.thread t).pc = .unborn → s.guard t = .before := by
    intro t hu
    have hplaced := h.placed t
    cases hg : s.guard t with
    | before => rfl
    | inside | after => simp [Placed, hg, hu] at hplaced
  cases hpc : s.inc.main with
  | create t =>
    simp only [createStep, hpc, Option.some.injEq] at he
    subst he
    cases t with
    | thr1 =>
      simp only [Joined, hpc] at hj
      simp [left, hpc, mainLeft, hbefore .thr1 (hj.2 .thr1), threadLeft]
    | thr2 =>
      simp only [Joined, hpc] at hj
      simp [left, hpc, mainLeft, hbefore .thr2 hj.2, threadLeft]
  | init | join t | print | exited | failed => simp [createStep, hpc] at he

lemma step_left {l : Label} (h : Kept k s) (he : step arg s l = some s') :
    left k s' + 1 ≤ left k s := by
  simp only [step, Option.ite_none_left_eq_some, not_or] at he
  obtain ⟨⟨hx, hf⟩, he⟩ := he
  cases l with
  | lock t =>
    simp only [lockStep, Option.ite_none_right_eq_some] at he
    obtain ⟨⟨hpc, hg⟩, he⟩ := he
    obtain ⟨m, -, rfl⟩ := Option.map_eq_some_iff.mp he
    apply guard_left
    simp [threadLeft, hpc, hg]
  | unlock t =>
    simp only [unlockStep, Option.ite_none_right_eq_some] at he
    obtain ⟨⟨hpc, hg⟩, he⟩ := he
    obtain ⟨m, -, rfl⟩ := Option.map_eq_some_iff.mp he
    apply guard_left
    simp [threadLeft, hpc, hg]
  | inc l =>
    simp only [Option.ite_none_right_eq_some] at he
    obtain ⟨ha, he⟩ := he
    obtain ⟨inc, hinc, rfl⟩ := Option.map_eq_some_iff.mp he
    simp only [ThreadInc.step, hx, hf, or_self, if_false] at hinc
    cases l with
    | main => exact mainStep_left hinc
    | create => exact createStep_left h hinc
    | createFails =>
      cases hpc : s.inc.main with
      | create t =>
        simp only [createFails, hpc, Option.some.injEq] at hinc
        subst hinc
        exact main_left rfl (by cases t <;> simp [hpc, mainLeft])
      | init | join t | print | exited | failed => simp [createFails, hpc] at hinc
    | threadFunc t => exact threadStep_left h (by simpa [allowed] using ha) hinc

end Completion

section Progress

def Enabled (arg : Option (List UInt8)) (s : State) : Prop :=
  ∃ l s', l ≠ .inc .createFails ∧ step arg s l = some s'

def Running (s : State) : Prop :=
  s.inc.main ≠ .exited ∧ s.inc.main ≠ .failed

lemma inc_enabled {l : ThreadInc.Label} (hr : Running s) (hl : l ≠ .createFails)
    (ha : allowed s l = true) (he : ∃ inc, ThreadInc.step arg s.inc l = some inc) :
    Enabled arg s := by
  obtain ⟨inc, hinc⟩ := he
  refine ⟨.inc l, { s with inc := inc }, by simpa using hl, ?_⟩
  simp [step, hr.1, hr.2, ha, hinc]

lemma owner_enabled (h : Kept N s) (hr : Running s) (ho : s.mutex.owner = some t) :
    Enabled arg s := by
  have hg := (h.owner t).mp ho
  have hplaced := h.placed t
  rw [hg] at hplaced
  cases hpc : (s.inc.thread t).pc with
  | unborn => simp [Placed, hpc] at hplaced
  | start | test | load | store =>
    refine inc_enabled (l := .threadFunc t) hr (by simp) (by simp [allowed, hg]) ?_
    simp [ThreadInc.step, hr.1, hr.2, threadStep, hpc]
  | returned =>
    obtain ⟨m, hm⟩ : ∃ m, s.mutex.unlock t = some m := ⟨_, if_pos ho⟩
    obtain ⟨s', hs'⟩ : ∃ s', unlockStep s t = some s' := by simp [unlockStep, hpc, hg, hm]
    exact ⟨.unlock t, s', by simp, by simp [step, hr.1, hr.2, hs']⟩

lemma thread_enabled (h : Kept N s) (hr : Running s) (hu : (s.inc.thread t).pc ≠ .unborn)
    (hg : s.guard t ≠ .after) : Enabled arg s := by
  cases ho : s.mutex.owner with
  | some u => exact owner_enabled h hr ho
  | none =>
    have hplaced := h.placed t
    cases hgt : s.guard t with
    | after => exact absurd hgt hg
    | inside =>
      cases ho.symm.trans ((h.owner t).mpr hgt)
    | before =>
      rw [hgt] at hplaced
      have hpc : (s.inc.thread t).pc = .start := hplaced.1.resolve_left hu
      obtain ⟨m, hm, -⟩ := Monitor.lock_unlock ho (by simp [h.awake.1] : t ∉ s.mutex.blocked)
        (by simp [h.awake.2])
      obtain ⟨s', hs'⟩ : ∃ s', lockStep s t = some s' := by simp [lockStep, hpc, hgt, hm]
      exact ⟨.lock t, s', by simp, by simp [step, hr.1, hr.2, hs']⟩

lemma enabled (h : Kept N s) (hr : Running s) : Enabled arg s := by
  have hmain : (∃ inc, mainStep arg s.inc = some inc) → returns s = true → Enabled arg s := by
    rintro ⟨inc, hinc⟩ hret
    exact inc_enabled (l := .main) hr (by simp) hret
      ⟨inc, by simp [ThreadInc.step, hr.1, hr.2, hinc]⟩
  cases hpc : s.inc.main with
  | init => exact hmain (by simp [mainStep, hpc]) (by simp [returns, hpc])
  | print => exact hmain (by simp [mainStep, hpc]) (by simp [returns, hpc])
  | create t =>
    refine inc_enabled (l := .create) hr (by simp) rfl ?_
    simp [ThreadInc.step, createStep, hpc]
  | join t =>
    by_cases hg : s.guard t = .after
    · have hplaced := h.placed t
      rw [hg] at hplaced
      apply hmain _ (by simp [returns, hpc, hg])
      cases t with
      | thr1 | thr2 => simp [mainStep, hpc, hplaced.1]
    · exact thread_enabled h hr (h.running t hpc t) hg
  | exited => exact absurd hpc hr.1
  | failed => exact absurd hpc hr.2

end Progress

section Refused

lemma refused_step {l : Label} (hN : loops arg < 0) (he : step arg start l = some s') :
    s'.inc.main = .failed ∧ s'.inc.printed = none := by
  have hsome : arg.isSome = true := by
    cases arg with
    | none => exact absurd hN (by decide)
    | some text => rfl
  cases l with
  | lock t => simp [step, lockStep, start, ThreadInc.start] at he
  | unlock t => simp [step, unlockStep, start, ThreadInc.start] at he
  | inc l =>
    cases l with
    | main =>
      simp only [step, start, ThreadInc.start, allowed, returns, ThreadInc.step, mainStep,
        initStep, hsome, hN.le, and_self, if_true, reduceCtorEq, or_self, if_false,
        Option.map_some, Option.some.injEq] at he
      subst he
      exact ⟨rfl, rfl⟩
    | create | createFails | threadFunc t =>
      simp [step, start, ThreadInc.start, allowed, ThreadInc.step, createStep, createFails] at he

lemma refused {ls : List Label} (hN : loops arg < 0) (hr : (system arg).Run start ls s) :
    ls.length ≤ 1 ∧ s.inc.printed = none ∧ (s = start ∨ s.inc.main = .failed) := by
  cases hr with
  | nil => exact ⟨Nat.zero_le 1, rfl, Or.inl rfl⟩
  | cons he hr =>
    obtain ⟨hm, hp⟩ := refused_step hN he
    cases hr with
    | nil => exact ⟨Nat.le.refl, hp, Or.inr hm⟩
    | cons he' _ => simp [system, step, hm] at he'

lemma start_enabled (arg : Option (List UInt8)) : Enabled arg start :=
  inc_enabled (l := .main) ⟨by simp [start, ThreadInc.start], by simp [start, ThreadInc.start]⟩
    (by simp) rfl (by simp [ThreadInc.step, start, ThreadInc.start, mainStep])

end Refused

/-- Every run of the locked program comes to an end, and what it prints is the number of
the increments. -/
theorem prints_sum (arg : Option (List UInt8)) (ls : List Label) (s : State)
    (hr : (system arg).Run start ls s) :
    ls.length ≤ 6 * (loops arg).toNat + 14 ∧
    (∀ v, s.inc.printed = some v → v = int (2 * loops arg)) ∧
    (s.inc.main ≠ .exited → s.inc.main ≠ .failed →
      ∃ l s', l ≠ .inc .createFails ∧ step arg s l = some s') := by
  by_cases hN : 0 ≤ loops arg
  · have h₀ : Kept (loops arg) start := start_kept _
    have hk : Kept (loops arg) s := (kept_inductive hN).run h₀ hr
    refine ⟨?_, hk.printed, fun hx hf => enabled hk ⟨hx, hf⟩⟩
    obtain ⟨k, hcast⟩ := Int.eq_ofNat_of_zero_le hN
    have hlen := (kept_inductive hN).length_le (μ := left k) (a := .lock .thr1) (c := 0)
      (fun s l t hk he => by
        rw [hcast] at hk
        simpa using step_left hk he) h₀ hr
    have hstart : left k start = 6 * k + 14 := by
      simp only [left, start, ThreadInc.start, mainLeft, threadLeft]
      omega
    rw [hcast, Int.toNat_natCast]
    omega
  · obtain ⟨hlen, hprinted, hs⟩ := refused (not_le.mp hN) hr
    refine ⟨by omega, fun v hv => (by simp [hprinted] at hv), fun hx hf => ?_⟩
    rcases hs with rfl | hm
    · exact start_enabled arg
    · exact absurd hm hf

theorem prints_sum_one : ∃ s, (system (some [49])).Run start
    [.inc .main, .inc .create, .inc .create, .lock .thr2, .inc (.threadFunc .thr2)] s ∧
    s.inc.main = .join .thr1 ∧
    ∃ l s', l ≠ .inc .createFails ∧ step (some [49]) s l = some s' := by
  have hrun : ((system (some [49])).exec start [.inc .main, .inc .create, .inc .create,
      .lock .thr2, .inc (.threadFunc .thr2)]).map (fun s => s.inc.main) = some (.join .thr1) := by
    decide
  obtain ⟨s, he, hm⟩ := Option.map_eq_some_iff.mp hrun
  have hr := System.run_iff_exec.mpr he
  exact ⟨s, hr, hm, (prints_sum _ _ s hr).2.2 (by simp [hm]) (by simp [hm])⟩

end UnixProgramming.ThreadInc.Locked
