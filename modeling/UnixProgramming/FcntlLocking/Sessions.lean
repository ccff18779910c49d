import UnixProgramming.FcntlLocking.Exclusion
import UnixProgramming.FcntlLocking.Lines

/-! Each process does what its program does by itself with the replies that the process has
got. -/

namespace UnixProgramming.FcntlLocking

open Library Library.Transition

namespace IFcntl

variable {s : Session} {piece : List UInt8} {reply : Reply} {f : ℕ → Reply}

def finish (s : Session) : Session :=
  if s.exit = none then
    { s with printed := s.printed ++ [.prompt], exit := some EXIT_SUCCESS }
  else s

lemma loop_eq {input : List UInt8} : loop f input s =
    finish ((pieces input.length input).foldl (round f) s) :=
  rfl

end IFcntl

namespace Records

open IFcntl (Session)

variable {size : ℤ} {s s' : State} {pid : ℤ} {p : Process} {calls : List (Request × Reply)}
  {f : ℕ → Reply} {c : Request × Reply}

def replies (calls : List (Request × Reply)) (k : ℕ) : Reply :=
  ((calls[k]?).map Prod.snd).getD (.failed 0)

def Agrees (f : ℕ → Reply) (calls : List (Request × Reply)) : Prop :=
  ∀ k c, calls[k]? = some c → f k = c.2

def Follows (p : Process) : Prop :=
  match p.program, p.point with
  | .i_fcntl_locking argv fd input, .reading s rest =>
    s.exit = none ∧ s.requests = p.calls.map Prod.fst ∧ ∀ f, Agrees f p.calls →
      IFcntl.main argv fd f input = IFcntl.finish (rest.foldl (IFcntl.round f) s)
  | .i_fcntl_locking argv fd input, .calling s r rest =>
    s.exit = none ∧ s.requests = p.calls.map Prod.fst ∧ ∀ f, Agrees f p.calls →
      IFcntl.main argv fd f input =
        IFcntl.finish (rest.foldl (IFcntl.round f) (IFcntl.issue (f p.calls.length) s r))
  | .i_fcntl_locking argv fd input, .ended s =>
    s.requests = p.calls.map Prod.fst ∧ ∀ f, Agrees f p.calls → IFcntl.main argv fd f input = s
  | .t_fcntl_locking argv fd, .requesting r => TFcntl.request argv fd = .ok r ∧ p.calls = []
  | .t_fcntl_locking argv fd, .reported o =>
    ∀ f, Agrees f p.calls → TFcntl.main argv fd (f 0) = (p.calls.map Prod.fst, o)
  | .file_lock fd, .locking r => FileLock.request fd = some r ∧ p.calls = []
  | .file_lock fd, .locked o =>
    ∀ f, Agrees f p.calls → FileLock.main fd (f 0) = (p.calls.map Prod.fst, o)
  | _, _ => False

lemma agrees_replies : Agrees (replies calls) calls := by
  intro k c hc
  simp [replies, hc]

lemma Agrees.concat (h : Agrees f (calls ++ [c])) : Agrees f calls ∧ f calls.length = c.2 := by
  constructor
  · intro k d hd
    have hk : k < calls.length := (List.getElem?_eq_some_iff.mp hd).1
    exact h k d (by rw [List.getElem?_append_left hk, hd])
  · exact h _ c (by simp)

lemma entry_follows (program : Program) : Follows ⟨program, program.entry, []⟩ := by
  cases program with
  | i_fcntl_locking argv fd input =>
    by_cases hu : argv.length ≠ 2 ∨ argv[1]? = some (bytes "help")
    · simp [Follows, Program.entry, hu, IFcntl.main, IFcntl.refuse]
    · by_cases hfd : fd = -1
      · simp [Follows, Program.entry, hu, hfd, IFcntl.main, IFcntl.refuse]
      · simp only [Follows, Program.entry, if_neg hu, if_neg hfd]
        refine ⟨rfl, rfl, fun f _ => ?_⟩
        rw [IFcntl.main, if_neg hu, if_neg hfd, IFcntl.loop_eq]
  | t_fcntl_locking argv fd =>
    cases hr : TFcntl.request argv fd with
    | error arg => simp [Follows, Program.entry, hr, TFcntl.main]
    | ok r => simp [Follows, Program.entry, hr]
  | file_lock fd =>
    cases hr : FileLock.request fd with
    | none => simp [Follows, Program.entry, hr, FileLock.main]
    | some r => simp [Follows, Program.entry, hr]

section Lines

variable {reply : Reply} {ses : Session} {line piece : List UInt8} {r : Request}

/-- A line that calls nothing leaves the same session whatever the reply would be. -/
lemma execute_idle (reply reply' : Reply) (ses : Session) (h : command line = none) :
    IFcntl.execute reply ses line = IFcntl.execute reply' ses line ∧
      (IFcntl.execute reply' ses line).requests = ses.requests ∧
      (IFcntl.execute reply' ses line).exit = ses.exit := by
  by_cases hnil : line = []
  · simp [IFcntl.execute, hnil]
  · by_cases hhelp : line.head? = some 63
    · simp [IFcntl.execute, hnil, hhelp]
    · have hd : IFcntl.decode line = none := by simpa [command, hnil, hhelp] using h
      simp [IFcntl.execute, hnil, hhelp, hd]

lemma execute_command (h : command line = some r) :
    IFcntl.execute reply ses line = IFcntl.issue reply ses r := by
  simp only [command, Option.ite_none_left_eq_some, not_or] at h
  obtain ⟨⟨hnil, hhelp⟩, hr⟩ := h
  simp only [IFcntl.execute, if_neg hnil, if_neg hhelp, hr]

lemma round_prompted (h : ses.exit = none) : IFcntl.round f ses piece =
    IFcntl.execute (f ses.requests.length) (prompted ses piece) (IFcntl.trim piece) :=
  if_pos h

end Lines

lemma read_follows {point : Point} (h : Follows p) (hr : p.point.read = some point) :
    Follows { p with point := point } := by
  obtain ⟨program, old, calls⟩ := p
  cases old with
  | reading ses rest =>
    cases program with
    | i_fcntl_locking argv fd input =>
      obtain ⟨hexit, hreq, hmain⟩ := h
      cases rest with
      | nil =>
        obtain rfl := Option.some.inj hr
        refine ⟨hreq, fun f hf => ?_⟩
        rw [hmain f hf, List.foldl_nil, IFcntl.finish, if_pos hexit]
      | cons piece rest =>
        have hlen : ses.requests.length = calls.length := by rw [hreq, List.length_map]
        cases hc : command (IFcntl.trim piece) with
        | none =>
          simp only [Point.read, hc, Option.some.injEq] at hr
          subst hr
          have hidle := fun reply => execute_idle reply (.failed 0) (prompted ses piece) hc
          obtain ⟨-, hrequests, hexit'⟩ := hidle (.failed 0)
          refine ⟨hexit'.trans hexit, hrequests.trans hreq, fun f hf => ?_⟩
          rw [hmain f hf, List.foldl_cons, round_prompted hexit, (hidle _).1]
        | some r =>
          simp only [Point.read, hc, Option.some.injEq] at hr
          subst hr
          refine ⟨hexit, hreq, fun f hf => ?_⟩
          rw [hmain f hf, List.foldl_cons, round_prompted hexit, execute_command hc, hlen]
    | t_fcntl_locking argv fd | file_lock fd => exact absurd h id
  | _ => cases hr

lemma answer_follows {point : Point} {r : Request} {reply : Reply} (h : Follows p)
    (hr : p.point.request = some r) (ha : p.point.answer reply = some point) :
    Follows { p with point := point, calls := p.calls ++ [(r, reply)] } := by
  obtain ⟨program, old, calls⟩ := p
  cases old with
  | calling ses r' rest =>
    obtain rfl := Option.some.inj hr
    cases program with
    | i_fcntl_locking argv fd input =>
      obtain ⟨hexit, hreq, hmain⟩ := h
      have hrequests : (IFcntl.issue reply ses r').requests =
          (calls ++ [(r', reply)]).map Prod.fst := by
        rw [List.map_append, ← hreq]
        rfl
      have hnext : ∀ f, Agrees f (calls ++ [(r', reply)]) → IFcntl.main argv fd f input =
          IFcntl.finish (rest.foldl (IFcntl.round f) (IFcntl.issue reply ses r')) := by
        intro f hf
        rw [hmain f hf.concat.1, hf.concat.2]
      simp only [Point.answer, Option.some.injEq] at ha
      subst ha
      by_cases hx : (IFcntl.issue reply ses r').exit = none
      · rw [if_pos hx]
        exact ⟨hx, hrequests, hnext⟩
      · rw [if_neg hx]
        refine ⟨hrequests, fun f hf => ?_⟩
        rw [hnext f hf, rounds_ended hx, IFcntl.finish, if_neg hx]
    | t_fcntl_locking argv fd | file_lock fd => exact absurd h id
  | requesting r' =>
    obtain rfl := Option.some.inj hr
    obtain rfl := Option.some.inj ha
    cases program with
    | t_fcntl_locking argv fd =>
      obtain ⟨hreq, rfl⟩ := h
      intro f hf
      have hreply : f 0 = reply := hf 0 _ rfl
      simp only [TFcntl.main, hreq, hreply]
      rfl
    | i_fcntl_locking argv fd input | file_lock fd => exact absurd h id
  | locking r' =>
    obtain rfl := Option.some.inj hr
    obtain rfl := Option.some.inj ha
    cases program with
    | file_lock fd =>
      obtain ⟨hreq, rfl⟩ := h
      intro f hf
      have hreply : f 0 = reply := hf 0 _ rfl
      simp only [FileLock.main, hreq, hreply]
      rfl
    | i_fcntl_locking argv fd input | t_fcntl_locking argv fd => exact absurd h id
  | _ => cases hr

section Runs

variable {P : Process → Prop}

lemma put_procs {t : Table} (h : ∀ pid p, s.procs pid = some p → P p) (hp : P p)
    (u : ℤ) (q : Process) (hq : (s.put pid p t).procs u = some q) : P q := by
  by_cases hu : u = pid
  · obtain rfl : p = q := by simpa [State.put, hu] using hq
    exact hp
  · exact h u q (by simpa [State.put, hu] using hq)

/-- What holds of a process when it starts and is kept by what it does itself holds in every
run. -/
theorem procs_inductive (size : ℤ) (hentry : ∀ program, P ⟨program, program.entry, []⟩)
    (hread : ∀ p point, P p → p.point.read = some point → P { p with point := point })
    (hanswer : ∀ p point r reply, P p → p.point.request = some r →
      p.point.answer reply = some point →
      P { p with point := point, calls := p.calls ++ [(r, reply)] }) :
    (system size).Inductive fun s => ∀ pid p, s.procs pid = some p → P p where
  initial := by
    rintro _ rfl _ _ ⟨⟩
  step s l s' h he := by
    cases l with
    | spawn pid program =>
      simp only [system, step, spawnStep, Option.ite_none_left_eq_some, Option.some.injEq] at he
      obtain ⟨-, rfl⟩ := he
      exact put_procs h (hentry program)
    | read pid =>
      obtain ⟨p, hp, he⟩ := Option.bind_eq_some_iff.mp he
      obtain ⟨point, hr, rfl⟩ := Option.map_eq_some_iff.mp he
      exact put_procs h (hread p point (h pid p hp) hr)
    | fcntl pid o =>
      obtain ⟨p, hp, he⟩ := Option.bind_eq_some_iff.mp he
      obtain ⟨r, reply, t, point, hr, -, ha, rfl⟩ := fcntlStep_called he
      exact put_procs h (hanswer p point r reply (h pid p hp) hr ha)
    | kill pid =>
      simp only [system, step, killStep, Option.ite_none_right_eq_some, Option.some.injEq] at he
      obtain ⟨-, rfl⟩ := he
      intro u q hq
      by_cases hu : u = pid
      · simp [hu] at hq
      · exact h u q (by simpa [hu] using hq)

end Runs

lemma follows_inductive (size : ℤ) :
    (system size).Inductive fun s => ∀ pid p, s.procs pid = some p → Follows p :=
  procs_inductive size entry_follows (fun _ _ => read_follows) fun _ _ _ _ => answer_follows

end Records

end UnixProgramming.FcntlLocking
