import UnixProgramming.ThreadServer.Connections

/-! What a worker releases on each of its exit paths, read off the effects that
the threads have had on descriptors, slots and signals. -/

namespace UnixProgramming.ThreadServer

open Library Library.Transition

inductive Effect
  | close (file : Option File)
  | store (i : Slot) (on : ℤ)
  | raise
  deriving DecidableEq, Repr

structure History where
  effects : List (Thread × Effect)
  last : ℕ → Option ReadResult

def workerEffect (s : State) (w : Worker) : Option Effect :=
  match w.pc with
  | .closing => some (.close (s.fds.file (s.socks w.slot).cfd))
  | .failed | .clear => some (.store w.slot 0)
  | .raise => some .raise
  | .start | .read | .reply | .raised | .exited | .returned => none

def mainEffect (s : State) : Option Effect :=
  match s.main with
  | .assign i => some (.store i 1)
  | _ => none

def Effect.storeOn (i : Slot) (v : ℤ) : Effect → ℤ
  | .store j x => if j = i then x else v
  | .close _ | .raise => v

def Effect.stores (i : Slot) : Effect → Bool
  | .store j _ => j = i
  | .close _ | .raise => false

namespace History

def none : History := ⟨[], fun _ => .none⟩

def add (h : History) (t : Thread) (e : Option Effect) : History :=
  { h with effects := h.effects ++ e.toList.map (Prod.mk t) }

def read (h : History) (t : ℕ) (r : ReadResult) : History :=
  { h with last := Function.update h.last t (some r) }

def extend (h : History) (s : State) : Label → History
  | .main => h.add .main (mainEffect s)
  | .worker t => h.add (.worker t) ((s.threads t).bind (workerEffect s))
  | .read t r => h.read t r
  | _ => h

def of (h : History) (t : Thread) : List Effect :=
  h.effects.filterMap fun e => if e.1 = t then some e.2 else Option.none

/-- The value that the last store left in the slot's `on`. -/
def on (h : History) (i : Slot) : ℤ :=
  h.effects.foldl (fun v e => e.2.storeOn i v) 0

def storer (h : History) (i : Slot) : Option Thread :=
  h.effects.foldl (fun v e => if e.2.stores i then some e.1 else v) Option.none

end History

def recorded (lfd : ℤ) (inherited : Finset ℤ) : System (State × History) Label :=
  (system lfd inherited).record .none History.extend

lemma recorded_start (lfd : ℤ) (inherited : Finset ℤ) :
    (recorded lfd inherited).initial (start lfd inherited, .none) :=
  ⟨rfl, rfl⟩

structure Released (s : State) (h : History) (t : ℕ) (w : Worker) : Prop where
  closed : (h.effects.map Prod.snd).count (.close w.conn) = 1
  cleared : (s.socks w.slot).on = 0
  raised : (.worker t, .raise) ∈ h.effects

variable {s s' : State} {h h' : History} {t u : ℕ} {w v : Worker}

def closed (w : Worker) (last : Option ReadResult) : List Effect :=
  if last = some .eof then [.close w.conn] else []

def Stage (w : Worker) (last : Option ReadResult) (es : List Effect) : Prop :=
  match w.pc with
  | .start | .read | .reply => es = []
  | .failed => last = some .error ∧ es = []
  | .closing => last = some .eof ∧ es = []
  | .clear => es = closed w last
  | .raise => es = closed w last ++ [.store w.slot 0]
  | .raised | .returned => es = closed w last ++ [.store w.slot 0, .raise]
  | .exited => last = some .error ∧ es = [.store w.slot 0]

structure Tracked (s : State) (h : History) : Prop where
  flag : ∀ i, (s.socks i).on = h.on i
  fresh : ∀ t, s.threads t = none → h.of (.worker t) = []
  stage : ∀ t w, s.threads t = some w → Stage w (h.last t) (h.of (.worker t))
  closes : ∀ t f, (t, .close f) ∈ h.effects →
    ∃ u w, t = .worker u ∧ s.threads u = some w ∧ w.conn = f

@[simp] lemma add_last {t : Thread} {e : Option Effect} : (h.add t e).last = h.last := rfl

lemma add_on {t : Thread} {e : Effect} {i : Slot} :
    (h.add t (some e)).on i = e.storeOn i (h.on i) := by
  simp [History.on, History.add]

lemma add_storer {t : Thread} {e : Effect} {i : Slot} :
    (h.add t (some e)).storer i = if e.stores i then some t else h.storer i := by
  simp [History.storer, History.add]

lemma Tracked.frame (hk : Tracked s h) (ho : ∀ i, (s'.socks i).on = (s.socks i).on)
    (ht : s'.threads = s.threads) : Tracked s' h where
  flag i := (ho i).trans (hk.flag i)
  fresh := by rw [ht]; exact hk.fresh
  stage := by rw [ht]; exact hk.stage
  closes := by rw [ht]; exact hk.closes

lemma Tracked.advance (hk : Tracked s h) {pc : WorkerPc} (ht : s.threads t = some w)
    (hth : s'.threads = Function.update s.threads t (some { w with pc := pc }))
    (hflag : ∀ i, (s'.socks i).on = h'.on i)
    (hother : ∀ u, u ≠ t → h'.of (.worker u) = h.of (.worker u) ∧ h'.last u = h.last u)
    (hclose : ∀ r f, (r, .close f) ∈ h'.effects →
      (r, .close f) ∈ h.effects ∨ r = .worker t ∧ f = w.conn)
    (hstage : Stage { w with pc := pc } (h'.last t) (h'.of (.worker t))) : Tracked s' h' := by
  refine ⟨hflag, fun u hu => ?_, fun u v hu => ?_, fun r f hrf => ?_⟩
  · rw [hth] at hu
    by_cases hut : u = t
    · simp [hut] at hu
    · rw [(hother u hut).1]
      exact hk.fresh u (by simpa [hut] using hu)
  · rw [hth] at hu
    rcases update_worker.mp hu with ⟨rfl, rfl⟩ | ⟨hut, hu⟩
    · exact hstage
    · rw [(hother u hut).1, (hother u hut).2]
      exact hk.stage u v hu
  · rw [hth]
    rcases hclose r f hrf with hold | ⟨rfl, rfl⟩
    · obtain ⟨u, v, rfl, hv, rfl⟩ := hk.closes r f hold
      by_cases hut : u = t
      · subst hut
        obtain rfl : w = v := Option.some.inj (ht.symm.trans hv)
        exact ⟨u, _, rfl, update_worker.mpr (Or.inl ⟨rfl, rfl⟩), rfl⟩
      · exact ⟨u, v, rfl, update_worker.mpr (Or.inr ⟨hut, hv⟩), rfl⟩
    · exact ⟨t, _, rfl, update_worker.mpr (Or.inl ⟨rfl, rfl⟩), rfl⟩

lemma Tracked.silent (hk : Tracked s h) {pc : WorkerPc} (ht : s.threads t = some w)
    (hth : s'.threads = Function.update s.threads t (some { w with pc := pc }))
    (hflag : ∀ i, (s'.socks i).on = (s.socks i).on)
    (hstage : Stage { w with pc := pc } (h.last t) (h.of (.worker t))) : Tracked s' h :=
  hk.advance ht hth (fun i => (hflag i).trans (hk.flag i)) (fun _ _ => ⟨rfl, rfl⟩)
    (fun _ _ hrf => Or.inl hrf) hstage

/-- `main` stores 1 only, and the workers store 0 only. -/
def Attributed (h : History) : Prop :=
  ∀ i, h.on i = if h.storer i = some .main then 1 else 0

lemma Attributed.add (ha : Attributed h) {t : Thread} {e : Effect}
    (he : ∀ i v, e = .store i v → v = if t = .main then 1 else 0) :
    Attributed (h.add t (some e)) := by
  intro i
  rw [add_on, add_storer]
  cases e with
  | close f => exact ha i
  | raise => exact ha i
  | store j v =>
    by_cases hj : j = i
    · simp [Effect.storeOn, Effect.stores, hj, he j v rfl]
    · simp only [Effect.storeOn, Effect.stores, hj, if_false, decide_false, Bool.false_eq_true]
      exact ha i

def Ends (s s' : State) (t : ℕ) (w : Worker) : Prop :=
  s'.threads t = some w ∧ w.pc.ended = true ∧ ∀ v, s.threads t = some v → v.pc.ended = false

end UnixProgramming.ThreadServer
