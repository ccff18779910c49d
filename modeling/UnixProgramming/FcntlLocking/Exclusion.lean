import UnixProgramming.FcntlLocking.Records

/-! What the replies that a process has got say about its locks is what the kernel keeps for
it. -/

namespace UnixProgramming.FcntlLocking

open Library Library.Transition

section Calls

variable {size : ℤ} {fl : Flock} {g : Region ℤ} {t t' : Table} {pid x : ℤ} {r : Request}
  {o : Outcome} {reply : Reply} {k : Lock ℤ ℤ}

/-- What the locks of a process are after a reply, by the request and the reply alone. -/
def learn (size : ℤ) (held : ℤ → Option Mode) (c : Request × Reply) : ℤ → Option Mode :=
  match region size c.1.fl, c.2 with
  | .ok g, .done _ _ =>
    if c.1.cmd = .F_GETLK then held else fun x => if x ∈ g then c.1.fl.l_type.mode else held x
  | _, _ => held

inductive Called (size : ℤ) (t : Table) (pid : ℤ) (r : Request) : Reply → Table → Prop
  | invalid {errno : ℤ} : region size r.fl = .error errno → Called size t pid r (.failed errno) t
  | useless {g : Region ℤ} : region size r.fl = .ok g → r.fl.l_type.mode = none →
      r.cmd = .F_GETLK → Called size t pid r (.failed EINVAL) t
  | refused {g : Region ℤ} {errno : ℤ} : region size r.fl = .ok g →
      refuses t pid r g errno = true → Called size t pid r (.failed errno) t
  | placeable {g : Region ℤ} {m : Mode} : region size r.fl = .ok g → r.fl.l_type.mode = some m →
      r.cmd = .F_GETLK → ¬ t.Blocked pid m g →
      Called size t pid r (.done { r.fl with l_type := .F_UNLCK } 0) t
  | denied {g : Region ℤ} {m : Mode} {k : Lock ℤ ℤ} : region size r.fl = .ok g →
      r.fl.l_type.mode = some m → r.cmd = .F_GETLK → k ∈ t.locks → RecordLocks.Blocks pid m g k →
      Called size t pid r (.done (describe k) k.owner) t
  | unlocks {g : Region ℤ} : region size r.fl = .ok g → r.fl.l_type.mode = none →
      r.cmd ≠ .F_GETLK → Called size t pid r (.done r.fl 0) (t.clear pid g)
  | locks {g : Region ℤ} {m : Mode} {t' : Table} : region size r.fl = .ok g →
      r.fl.l_type.mode = some m → r.cmd ≠ .F_GETLK → t.set pid m g = some t' →
      Called size t pid r (.done r.fl 0) t'

lemma fcntl_called (h : fcntl size t pid r o = some (reply, t')) :
    Called size t pid r reply t' := by
  cases hg : region size r.fl with
  | error errno =>
    cases o with
    | act =>
      simp only [fcntl, hg, Option.some.injEq, Prod.mk.injEq] at h
      obtain ⟨rfl, rfl⟩ := h
      exact .invalid hg
    | deny k | fail errno' => simp [fcntl, hg] at h
  | ok g =>
    cases o with
    | fail errno =>
      simp only [fcntl, hg, Option.ite_none_right_eq_some, Option.some.injEq, Prod.mk.injEq] at h
      obtain ⟨hf, rfl, rfl⟩ := h
      exact .refused hg hf
    | deny k =>
      simp only [fcntl, hg] at h
      obtain ⟨m, hm, h⟩ := Option.bind_eq_some_iff.mp h
      simp only [Option.ite_none_right_eq_some, Option.some.injEq, Prod.mk.injEq] at h
      obtain ⟨⟨hc, hk, hb⟩, rfl, rfl⟩ := h
      exact .denied hg hm hc hk hb
    | act =>
      simp only [fcntl, hg] at h
      cases hm : r.fl.l_type.mode with
      | none =>
        simp only [hm] at h
        split_ifs at h with hc
        · cases h
          exact .useless hg hm hc
        · cases h
          exact .unlocks hg hm hc
      | some m =>
        simp only [hm] at h
        split_ifs at h with hc hb
        · cases h
          exact .placeable hg hm hc hb
        · obtain ⟨t₁, ht, he⟩ := Option.map_eq_some_iff.mp h
          cases he
          exact .locks hg hm hc ht

lemma Called.view (h : Called size t pid r reply t') (u : ℤ) :
    t'.view u x = if u = pid then learn size (t.view pid) (r, reply) x else t.view u x := by
  by_cases hu : u = pid
  · subst hu
    rw [if_pos rfl]
    cases h with
    | invalid hg => simp [learn, hg]
    | useless hg | refused hg => simp [learn, hg]
    | placeable hg _ hc => simp [learn, hg, hc]
    | denied hg _ hc => simp [learn, hg, hc]
    | unlocks hg hm hc => simp [learn, hg, hc, hm, RecordLocks.view_clear]
    | locks hg hm hc ht => simp [learn, hg, hc, hm, RecordLocks.view_set ht]
  · rw [if_neg hu]
    cases h with
    | invalid | useless | refused | placeable | denied => rfl
    | unlocks => simp [RecordLocks.view_clear, hu]
    | locks _ _ _ ht => simp [RecordLocks.view_set ht, hu]

lemma region_bounds (h : region size fl = .ok g) : 0 ≤ g.start ∧ g.stop ≤ OFFSET_MAX + 1 := by
  simp only [region] at h
  split_ifs at h
  all_goals
    cases h
    constructor <;> simp only [] <;> omega

lemma learn_bounded {held : ℤ → Option Mode} {c : Request × Reply}
    (h : held x ≠ none → 0 ≤ x ∧ x ≤ OFFSET_MAX) (hx : learn size held c x ≠ none) :
    0 ≤ x ∧ x ≤ OFFSET_MAX := by
  cases hg : region size c.1.fl with
  | error errno => exact h (by simpa only [learn, hg] using hx)
  | ok g =>
    cases hr : c.2 with
    | failed errno => exact h (by simpa only [learn, hg, hr] using hx)
    | done fl pid =>
      simp only [learn, hg, hr] at hx
      obtain ⟨h₀, h₁⟩ := region_bounds hg
      by_cases hxg : x ∈ g
      · rw [Region.mem_iff] at hxg
        omega
      · apply h
        split_ifs at hx
        · exact hx
        · simpa only [if_neg hxg] using hx

end Calls

namespace Records

variable {size : ℤ} {s s' : State} {pid x : ℤ} {p : Process} {t : Table}

/-- The locks that a process has by the replies it has got. -/
def Process.holds (size : ℤ) (p : Process) : ℤ → Option Mode :=
  if p.point.alive then p.calls.foldl (learn size) fun _ => none else fun _ => none

def State.holds (size : ℤ) (s : State) (pid : ℤ) : ℤ → Option Mode :=
  (s.procs pid).elim (fun _ => none) (Process.holds size)

def Told (size : ℤ) (s : State) : Prop :=
  ∀ pid x, s.table.view pid x = s.holds size pid x

lemma holds_live (h : p.point.alive = true) :
    p.holds size = p.calls.foldl (learn size) fun _ => none := by
  rw [Process.holds, if_pos h]

lemma holds_proc (h : s.procs pid = some p) : s.holds size pid = p.holds size := by
  rw [State.holds, h]
  rfl

lemma holds_dead (h : s.live pid = false) : s.holds size pid x = none := by
  cases hp : s.procs pid with
  | none => rw [State.holds, hp]; rfl
  | some p =>
    have hd : p.point.alive = false := by simpa [State.live, hp] using h
    rw [holds_proc hp, Process.holds, hd]
    rfl

lemma put_told (hother : ∀ u, u ≠ pid → ∀ x, t.view u x = s.holds size u x)
    (hown : p.point.alive = true → ∀ x, t.view pid x = p.holds size x) :
    Told size (s.put pid p t) := by
  intro u x
  have hholds : (s.put pid p t).holds size u x =
      if u = pid then p.holds size x else s.holds size u x := by
    by_cases hu : u = pid <;> simp [State.holds, State.put, hu]
  rw [hholds]
  cases ha : p.point.alive with
  | true =>
    simp only [State.put, ha, if_true]
    by_cases hu : u = pid
    · rw [if_pos hu, hu, hown ha]
    · rw [if_neg hu, hother u hu]
  | false =>
    simp only [State.put, ha, Bool.false_eq_true, if_false, RecordLocks.view_release]
    by_cases hu : u = pid
    · rw [if_pos hu, if_pos hu, Process.holds, ha]
      rfl
    · rw [if_neg hu, if_neg hu, hother u hu]

lemma read_alive {point point' : Point} (h : point.read = some point') : point.alive = true := by
  cases point <;> first | rfl | cases h

lemma request_alive {point : Point} {r : Request} (h : point.request = some r) :
    point.alive = true := by
  cases point <;> first | rfl | cases h

lemma fcntlStep_called {o : Outcome} (he : fcntlStep size s pid p o = some s') :
    ∃ r reply t point, p.point.request = some r ∧ Called size s.table pid r reply t ∧
      p.point.answer reply = some point ∧
      s' = s.put pid { p with point := point, calls := p.calls ++ [(r, reply)] } t := by
  obtain ⟨r, hr, he⟩ := Option.bind_eq_some_iff.mp he
  obtain ⟨⟨reply, t⟩, hf, he⟩ := Option.bind_eq_some_iff.mp he
  obtain ⟨point, ha, rfl⟩ := Option.map_eq_some_iff.mp he
  exact ⟨r, reply, t, point, hr, fcntl_called hf, ha, rfl⟩

lemma step_told {l : Label} (h : Told size s) (he : step size s l = some s') : Told size s' := by
  cases l with
  | spawn pid program =>
    simp only [step, spawnStep, Option.ite_none_left_eq_some, Option.some.injEq] at he
    obtain ⟨hl, rfl⟩ := he
    refine put_told (fun u _ x => h u x) fun ha x => ?_
    rw [h, holds_dead (by simpa using hl), holds_live ha]
    rfl
  | read pid =>
    obtain ⟨p, hp, he⟩ := Option.bind_eq_some_iff.mp he
    obtain ⟨point, hr, rfl⟩ := Option.map_eq_some_iff.mp he
    refine put_told (fun u _ x => h u x) fun ha x => ?_
    rw [h, holds_proc hp, holds_live (read_alive hr), holds_live ha]
  | fcntl pid o =>
    obtain ⟨p, hp, he⟩ := Option.bind_eq_some_iff.mp he
    obtain ⟨r, reply, t, point, hr, hc, -, rfl⟩ := fcntlStep_called he
    refine put_told (fun u hu x => ?_) fun ha x => ?_
    · rw [hc.view, if_neg hu, h]
    · have hold : s.table.view pid = p.calls.foldl (learn size) fun _ => none := by
        funext x
        rw [h, holds_proc hp, holds_live (request_alive hr)]
      rw [hc.view, if_pos rfl, hold, holds_live ha, List.foldl_append]
      rfl
  | kill pid =>
    simp only [step, killStep, Option.ite_none_right_eq_some, Option.some.injEq] at he
    obtain ⟨-, rfl⟩ := he
    intro u x
    rw [RecordLocks.view_release]
    by_cases hu : u = pid
    · simp [State.holds, hu]
    · simp [State.holds, hu, h u x]

lemma told_inductive (size : ℤ) : (system size).Inductive (Told size) where
  initial := by
    rintro _ rfl
    exact fun _ _ => rfl
  step _ _ _ h he := step_told h he

lemma Told.exclusive {u : ℤ} (h : Told size s) (hne : u ≠ pid)
    (hx : s.holds size pid x = some .write) : s.holds size u x = none := by
  rw [← h] at hx ⊢
  exact RecordLocks.view_exclusive hx hne

def clerk (input : String) : Program :=
  .i_fcntl_locking [bytes "i_fcntl_locking", bytes "file"] 3 (bytes input)

end Records

end UnixProgramming.FcntlLocking
