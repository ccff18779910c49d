import UnixProgramming.ThreadServer.Model
import Mathlib.Tactic

/-! What one step of the multi-thread server can do. -/

namespace UnixProgramming.ThreadServer

open Library Library.Transition

variable {s s' : State} {t u : ℕ} {w v : Worker} {i : Slot}

lemma update_worker {th : ℕ → Option Worker} :
    Function.update th t (some w) u = some v ↔ u = t ∧ w = v ∨ u ≠ t ∧ th u = some v := by
  by_cases h : u = t <;> simp [h]

lemma acceptInto_frame {ret : ℤ} {addr : ℕ} (he : acceptInto s i ret addr = some s') :
    s'.threads = s.threads ∧ s'.spawned = s.spawned ∧ s'.main = s.main ∧
      (∀ j, (s'.socks j).on = (s.socks j).on) ∧ ∀ j, j ≠ i → s'.socks j = s.socks j := by
  have hon : ∀ v : SockInfo, v.on = (s.socks i).on →
      ∀ j, ((s.setSock i v).socks j).on = (s.socks j).on := by
    intro v hv j
    by_cases hj : j = i
    · simp [hj, hv]
    · simp [hj]
  simp only [acceptInto] at he
  split_ifs at he
  · obtain rfl := Option.some.inj he
    exact ⟨rfl, rfl, rfl, hon _ rfl, fun j hj => by simp [hj]⟩
  · obtain ⟨fds, -, rfl⟩ := Option.map_eq_some_iff.mp he
    exact ⟨rfl, rfl, rfl, hon _ rfl, fun j hj => by simp [hj]⟩

lemma acceptStep_cases {ret : ℤ} {addr : ℕ} (he : acceptStep s ret addr = some s') :
    ∃ i r, acceptInto s i ret addr = some r ∧
      (s.main = .accept i ∧ s' = { r with main := if ret = -1 then .retry i else .create i } ∨
        s.main = .retry i ∧ s' = { r with main := .accept i }) := by
  cases hm : s.main with
  | accept i =>
    simp only [acceptStep, hm] at he
    obtain ⟨r, hr, rfl⟩ := Option.map_eq_some_iff.mp he
    exact ⟨i, r, hr, Or.inl ⟨rfl, rfl⟩⟩
  | retry i =>
    simp only [acceptStep, hm] at he
    obtain ⟨r, hr, rfl⟩ := Option.map_eq_some_iff.mp he
    exact ⟨i, r, hr, Or.inr ⟨rfl, rfl⟩⟩
  | _ => simp [acceptStep, hm] at he

lemma createStep_cases (he : createStep s = some s') :
    ∃ i, s.main = .create i ∧
      s' = { (s.setSock i { s.socks i with tid := s.spawned }).setWorker s.spawned
          ⟨i, s.fds.file (s.socks i).cfd, .start⟩ with
        spawned := s.spawned + 1
        main := .assign i } := by
  cases hm : s.main with
  | create i =>
    simp only [createStep, hm, Option.some.injEq] at he
    exact ⟨i, rfl, he.symm⟩
  | _ => simp [createStep, hm] at he

inductive MainMove (s : State) : State → Prop
  | finds {i : ℕ} (h : i < THREAD_LIMIT) : s.main = .scan i → (s.socks ⟨i, h⟩).on = 0 →
      MainMove s { s with main := .accept ⟨i, h⟩ }
  | passes {i : ℕ} : s.main = .scan i → MainMove s { s with main := .scan (i + 1) }
  | fills {i : ℕ} : s.main = .scan i → MainMove s { s with main := .busy }
  | assigns {i : Slot} : s.main = .assign i → MainMove s { s.setOn i 1 with main := .detach i }
  | detaches {i : Slot} : s.main = .detach i → MainMove s { s with main := .scan 0 }
  | suspends : s.main = .busy → MainMove s { s with main := .suspended }

lemma mainStep_cases (he : mainStep s = some s') : MainMove s s' := by
  cases hm : s.main with
  | scan i =>
    simp only [mainStep, hm] at he
    split_ifs at he with hi hon
    · obtain rfl := Option.some.inj he
      exact .finds hi hm hon
    · obtain rfl := Option.some.inj he
      exact .passes hm
    · obtain rfl := Option.some.inj he
      exact .fills hm
  | assign i =>
    simp only [mainStep, hm, Option.some.injEq] at he
    subst he
    exact .assigns hm
  | detach i =>
    simp only [mainStep, hm, Option.some.injEq] at he
    subst he
    exact .detaches hm
  | busy =>
    simp only [mainStep, hm, Option.some.injEq] at he
    subst he
    exact .suspends hm
  | accept i | retry i | create i | suspended => simp [mainStep, hm] at he

inductive WorkerMove (s : State) (t : ℕ) (w : Worker) : State → Prop
  | starts : w.pc = .start → WorkerMove s t w (s.setWorker t { w with pc := .read })
  | frees {pc : WorkerPc} : w.pc = .failed ∧ pc = .exited ∨ w.pc = .clear ∧ pc = .raise →
      WorkerMove s t w ((s.setOn w.slot 0).setWorker t { w with pc := pc })
  | closes : w.pc = .closing → WorkerMove s t w
      { s.setWorker t { w with pc := .clear } with fds := s.fds.close (s.socks w.slot).cfd }
  | raises : w.pc = .raise →
      WorkerMove s t w ((s.setPending (raiseTarget t) true).setWorker t { w with pc := .raised })
  | returns : w.pc = .raised → WorkerMove s t w (s.setWorker t { w with pc := .returned })

lemma workerStep_cases (he : workerStep s t w = some s') : WorkerMove s t w s' := by
  cases hpc : w.pc with
  | start =>
    simp only [workerStep, hpc, Option.some.injEq] at he
    subst he
    exact .starts hpc
  | failed =>
    simp only [workerStep, hpc, Option.some.injEq] at he
    subst he
    exact .frees (Or.inl ⟨hpc, rfl⟩)
  | clear =>
    simp only [workerStep, hpc, Option.some.injEq] at he
    subst he
    exact .frees (Or.inr ⟨hpc, rfl⟩)
  | closing =>
    simp only [workerStep, hpc, Option.some.injEq] at he
    subst he
    exact .closes hpc
  | raise =>
    simp only [workerStep, hpc, Option.some.injEq] at he
    subst he
    exact .raises hpc
  | raised =>
    simp only [workerStep, hpc, Option.ite_none_left_eq_some, Option.some.injEq] at he
    obtain ⟨-, rfl⟩ := he
    exact .returns hpc
  | read | reply | exited | returned => simp [workerStep, hpc] at he

lemma readStep_cases {r : ReadResult} (he : readStep s t w r = some s') :
    w.pc = .read ∧ ∃ pc, s' = s.setWorker t { w with pc := pc } ∧
      pc ∈ [WorkerPc.failed, .closing, .clear, .reply] := by
  simp only [readStep, Option.ite_none_right_eq_some] at he
  obtain ⟨⟨hpc, -⟩, he⟩ := he
  refine ⟨hpc, ?_⟩
  cases r with
  | error => exact ⟨.failed, (Option.some.inj he).symm, by simp⟩
  | eof => exact ⟨.closing, (Option.some.inj he).symm, by simp⟩
  | data bytes rest =>
    refine ⟨_, (Option.some.inj he).symm, ?_⟩
    split_ifs <;> simp

lemma writeStep_cases (he : writeStep s t w = some s') :
    w.pc = .reply ∧ s' = s.setWorker t { w with pc := .read } := by
  simp only [writeStep, Option.ite_none_right_eq_some, Option.some.injEq] at he
  exact ⟨he.1, he.2.symm⟩

lemma deliverStep_cases {t : Thread} (he : deliverStep s t = some s') :
    ∃ target, s.pending target = true ∧ takes s t = true ∧
      target = (if s.pending (.thread t) then Target.thread t else .process) ∧
      s' = { s.setPending target false with
        main := if t = .main ∧ s.main = .suspended then .scan 0 else s.main } := by
  simp only [deliverStep, Option.ite_none_right_eq_some, Option.some.injEq] at he
  obtain ⟨⟨hp, ht⟩, rfl⟩ := he
  exact ⟨_, hp, ht, rfl, rfl⟩

def Label.fatal : Label → Bool
  | .createFails | .detachFails | .sigpipe _ => true
  | _ => false

inductive Move (s : State) : Label → State → Prop
  | main {n : State} : mainStep s = some n → Move s .main n
  | accept {ret : ℤ} {addr : ℕ} {n : State} : acceptStep s ret addr = some n →
      Move s (.accept ret addr) n
  | create {n : State} : createStep s = some n → Move s .create n
  | dies {l : Label} : l.fatal = true → Move s l { s with alive := false }
  | worker {t : ℕ} {w : Worker} {n : State} : s.threads t = some w → workerStep s t w = some n →
      Move s (.worker t) n
  | read {t : ℕ} {w : Worker} {r : ReadResult} {pc : WorkerPc} : s.threads t = some w →
      w.pc = .read → pc ∈ [WorkerPc.failed, .closing, .clear, .reply] →
      Move s (.read t r) (s.setWorker t { w with pc := pc })
  | write {t : ℕ} {w : Worker} : s.threads t = some w → w.pc = .reply →
      Move s (.write t) (s.setWorker t { w with pc := .read })
  | kill {target : Target} : Move s (.kill target) (s.setPending target true)
  | deliver {t : Thread} {n : State} : deliverStep s t = some n → Move s (.deliver t) n

lemma step_cases {l : Label} (he : step s l = some s') : s.alive = true ∧ Move s l s' := by
  have ha : s.alive = true := by
    by_contra ha
    simp [step, ha] at he
  refine ⟨ha, ?_⟩
  simp only [step, ha, Bool.true_eq_false, if_false] at he
  cases l with
  | main => exact .main he
  | accept ret addr => exact .accept he
  | create => exact .create he
  | createFails | detachFails =>
    obtain ⟨-, rfl⟩ : _ ∧ { s with alive := false } = s' := by simpa using he
    exact .dies rfl
  | worker t =>
    obtain ⟨w, ht, hw⟩ := Option.bind_eq_some_iff.mp he
    exact .worker ht hw
  | read t r =>
    obtain ⟨w, ht, hw⟩ := Option.bind_eq_some_iff.mp he
    obtain ⟨hpc, pc, rfl, hp⟩ := readStep_cases hw
    exact .read ht hpc hp
  | write t =>
    obtain ⟨w, ht, hw⟩ := Option.bind_eq_some_iff.mp he
    obtain ⟨hpc, rfl⟩ := writeStep_cases hw
    exact .write ht hpc
  | sigpipe t =>
    obtain ⟨w, ht, hw⟩ := Option.bind_eq_some_iff.mp he
    obtain ⟨-, rfl⟩ : _ ∧ { s with alive := false } = s' := by simpa using hw
    exact .dies rfl
  | kill target =>
    obtain rfl := Option.some.inj he
    exact .kill
  | deliver t => exact .deliver he

end UnixProgramming.ThreadServer
