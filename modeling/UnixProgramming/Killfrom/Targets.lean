import UnixProgramming.Killfrom.Model

/-! The processes that `killfrom.c` reaches, and those whose identifiers lie between the
numbers that it is given. -/

namespace UnixProgramming.Killfrom

open Library

def last (argv : List (List UInt8)) : ℤ :=
  argv[2]?.elim MAXPID fun text => min (number text) MAXPID

def Between (argv : List (List UInt8)) (p : ℤ) : Prop :=
  ∃ text ∈ argv[1]?, number text ≤ p ∧ p ≤ last argv

structure AsRequested (t : Processes) (argv : List (List UInt8)) : Prop where
  received : ∀ p, p ∈ (main t argv).received ↔ p ∈ t.pids ∧ Between argv p
  single : ∀ pid ∈ (main t argv).calls, 0 < pid
  honoured : ∀ text ∈ argv[2]?, endpid argv = min (number text) MAXPID

/-- With one end pid, a number that `int` holds, or one that stays a large one. -/
def EndFits (argv : List (List UInt8)) : Prop :=
  ∀ text ∈ argv[2]?,
    if number text < MAXPID then argv.length = 3 ∧ -(2 ^ 31) ≤ number text
    else argv.length = 3 → MAXPID ≤ atoi text

structure StartFits (t : Processes) (argv : List (List UInt8)) (text : List UInt8) : Prop where
  positive : 1 ≤ atoi text ∨ last argv < atoi text
  read : ∀ p ∈ t.pids, p ≤ last argv → (atoi text ≤ p ↔ number text ≤ p)
  survives : atoi text ≤ t.self → ∀ p ∈ t.pids, t.self < p → last argv < p

variable {t : Processes} {argv : List (List UInt8)} {text : List UInt8} {n : ℕ} {i p pid : ℤ}
  {r : Run}

lemma loop_stopped (h : t.self ∈ r.received) : loop t n i r = r := by
  cases n with
  | zero => rfl
  | succ n => rw [loop, if_pos h]

lemma mem_kill (hi : 0 < i) : p ∈ (kill t i r).received ↔ p ∈ r.received ∨ p ∈ t.pids ∧ p = i := by
  rw [kill, Finset.mem_union, t.mem_addressed hi]

theorem mem_loop (hi : 0 < i) (hs : t.self ∉ r.received) :
    p ∈ (loop t n i r).received ↔
      p ∈ r.received ∨ p ∈ t.pids ∧ i ≤ p ∧ p < i + n ∧ (i ≤ t.self → p ≤ t.self) := by
  induction n generalizing i r with
  | zero =>
    simp only [loop, Nat.cast_zero]
    constructor
    · exact .inl
    · rintro (h | ⟨-, h, h', -⟩)
      · exact h
      · omega
  | succ n ih =>
    rw [loop, if_neg hs]
    by_cases hself : i = t.self
    · have hstop : t.self ∈ (kill t i r).received :=
        (mem_kill hi).mpr (.inr ⟨t.running, hself.symm⟩)
      rw [loop_stopped hstop, mem_kill hi]
      push_cast
      constructor
      · rintro (h | ⟨hp, rfl⟩)
        · exact .inl h
        · exact .inr ⟨hp, le_refl p, by omega, fun _ => hself.le⟩
      · rintro (h | ⟨hp, h, -, h'⟩)
        · exact .inl h
        · exact .inr ⟨hp, by omega⟩
    · have hgo : t.self ∉ (kill t i r).received := by
        rw [mem_kill hi, not_or]
        exact ⟨hs, fun h => hself h.2.symm⟩
      rw [ih (by omega) hgo, mem_kill hi]
      push_cast
      constructor
      · rintro ((h | ⟨hp, rfl⟩) | ⟨hp, h, h', hle⟩)
        · exact .inl h
        · exact .inr ⟨hp, le_refl p, by omega, id⟩
        · exact .inr ⟨hp, by omega, by omega, fun h => hle (by omega)⟩
      · rintro (h | ⟨hp, h, h', hle⟩)
        · exact .inl (.inl h)
        · by_cases hpi : p = i
          · exact .inl (.inr ⟨hp, hpi⟩)
          · exact .inr ⟨hp, by omega, by omega, fun h => hle (by omega)⟩

lemma loop_calls (h : pid ∈ (loop t n i r).calls) : pid ∈ r.calls ∨ i ≤ pid ∧ pid < i + n := by
  induction n generalizing i r with
  | zero => exact .inl h
  | succ n ih =>
    rw [loop] at h
    push_cast
    split_ifs at h
    · exact .inl h
    · rcases ih h with h | ⟨hle, hlt⟩
      · rcases List.mem_append.mp h with h | h
        · exact .inl h
        · obtain rfl := List.mem_singleton.mp h
          exact .inr ⟨le_refl _, by omega⟩
      · exact .inr ⟨by omega, by omega⟩

lemma calls_kept (h : pid ∈ r.calls) : pid ∈ (loop t n i r).calls := by
  induction n generalizing i r with
  | zero => exact h
  | succ n ih =>
    rw [loop]
    split_ifs
    · exact h
    · exact ih (List.mem_append_left _ h)

lemma first_call (hn : 0 < n) (hs : t.self ∉ r.received) : i ∈ (loop t n i r).calls := by
  obtain ⟨n, rfl⟩ := Nat.exists_eq_succ_of_ne_zero hn.ne'
  rw [loop, if_neg hs]
  exact calls_kept (List.mem_append_right _ (List.mem_singleton_self i))

lemma main_eq (h : argv[1]? = some text) :
    (main t argv).received =
        (loop t (endpid argv + 1 - atoi text).toNat (atoi text) idle).received ∧
      (main t argv).calls =
        (loop t (endpid argv + 1 - atoi text).toNat (atoi text) idle).calls := by
  have hlen : ¬ argv.length < 2 := by
    have hlt := (List.getElem?_eq_some_iff.mp h).1
    omega
  have hstart : startpid argv = atoi text := by
    rw [startpid, List.getD_eq_getElem?_getD, h]
    rfl
  rw [main, if_neg hlen, hstart]
  simp only
  split_ifs <;> exact ⟨rfl, rfl⟩

lemma main_usage (h : argv[1]? = none) :
    (main t argv).received = ∅ ∧ (main t argv).calls = [] := by
  have hlen : argv.length < 2 := by
    have hle := List.getElem?_eq_none_iff.mp h
    omega
  rw [main, if_pos hlen]
  exact ⟨rfl, rfl⟩

lemma mem_main (h : argv[1]? = some text) (hpos : 1 ≤ atoi text ∨ endpid argv < atoi text) :
    p ∈ (main t argv).received ↔ p ∈ t.pids ∧ atoi text ≤ p ∧ p ≤ endpid argv ∧
      (atoi text ≤ t.self → p ≤ t.self) := by
  rw [(main_eq h).1]
  by_cases hlt : endpid argv < atoi text
  · have hzero : (endpid argv + 1 - atoi text).toNat = 0 := by omega
    rw [hzero]
    constructor
    · intro hp
      exact absurd hp (Finset.notMem_empty p)
    · rintro ⟨-, h₁, h₂, -⟩
      omega
  · have hone : 1 ≤ atoi text := hpos.resolve_right hlt
    rw [mem_loop (by omega) (Finset.notMem_empty _)]
    have hlast : atoi text + (endpid argv + 1 - atoi text).toNat = endpid argv + 1 := by omega
    rw [hlast, Int.lt_add_one_iff]
    constructor
    · rintro (hp | hp)
      · exact absurd hp (Finset.notMem_empty p)
      · exact hp
    · exact .inr

lemma endpid_eq (h : ∀ text ∈ argv[2]?, endpid argv = min (number text) MAXPID) :
    endpid argv = last argv := by
  cases harg : argv[2]? with
  | none =>
    have hlen : argv.length ≠ 3 := by
      have hle := List.getElem?_eq_none_iff.mp harg
      omega
    rw [endpid, if_neg fun hc => hlen hc.1, last, harg]
    rfl
  | some text =>
    rw [h text harg, last, harg]
    rfl

lemma atoi_eq_iff : atoi text = number text ↔ -(2 ^ 31) ≤ number text ∧ number text ≤ INT_MAX := by
  rw [atoi_number]
  constructor
  · intro h
    rw [← h]
    exact int_range
  · rintro ⟨h, h'⟩
    rw [clamp_eq (le_trans (by decide) h) (le_trans h' (by decide)), int_eq h h']

lemma honoured_iff :
    (∀ text ∈ argv[2]?, endpid argv = min (number text) MAXPID) ↔ EndFits argv := by
  cases harg : argv[2]? with
  | none => simp [EndFits, harg]
  | some text =>
    have hget : argv.getD 2 [] = text := by
      rw [List.getD_eq_getElem?_getD, harg]
      rfl
    have hfits : atoi text = number text ↔ -(2 ^ 31) ≤ number text ∧ number text ≤ INT_MAX :=
      atoi_eq_iff
    simp only [EndFits, harg, Option.mem_def, Option.some.injEq, forall_eq', endpid, hget]
    have hmax : MAXPID ≤ INT_MAX := by decide
    by_cases hlen : argv.length = 3
    · by_cases hlt : atoi text < MAXPID
      · rw [if_pos ⟨hlen, hlt⟩]
        split_ifs <;> omega
      · rw [if_neg fun h => hlt h.2]
        split_ifs <;> omega
    · rw [if_neg fun h => hlen h.1]
      split_ifs <;> omega

lemma between_iff (h : argv[1]? = some text) :
    Between argv p ↔ number text ≤ p ∧ p ≤ last argv := by
  simp [Between, h]

lemma AsRequested.positive (h : argv[1]? = some text) (hend : endpid argv = last argv)
    (hreq : AsRequested t argv) : 1 ≤ atoi text ∨ last argv < atoi text := by
  by_cases hlt : last argv < atoi text
  · exact .inr hlt
  · have hcall : atoi text ∈ (main t argv).calls := by
      rw [(main_eq h).2]
      exact first_call (by omega) (Finset.notMem_empty _)
    exact .inl (hreq.single _ hcall)

lemma AsRequested.start (h : argv[1]? = some text) (hreq : AsRequested t argv) :
    StartFits t argv text := by
  have hend : endpid argv = last argv := endpid_eq hreq.honoured
  have hpos := hreq.positive h hend
  have hiff : ∀ p ∈ t.pids, (atoi text ≤ p ∧ p ≤ last argv ∧ (atoi text ≤ t.self → p ≤ t.self)) ↔
      number text ≤ p ∧ p ≤ last argv := by
    intro p hp
    have hp' := hreq.received p
    rw [mem_main h (hend ▸ hpos), between_iff h, hend] at hp'
    simpa only [hp, true_and] using hp'
  have hself := hiff t.self t.running
  refine ⟨hpos, fun p hp hle => ?_, fun hle p hp hlt => ?_⟩
  · have hp' := hiff p hp
    omega
  · have hp' := hiff p hp
    omega

lemma mem_main_iff (h : argv[1]? = some text) (hend : endpid argv = last argv)
    (hfits : StartFits t argv text) : p ∈ (main t argv).received ↔ p ∈ t.pids ∧ Between argv p := by
  rw [mem_main h (hend ▸ hfits.positive), between_iff h, hend]
  constructor
  · rintro ⟨hp, hle, hlast, -⟩
    exact ⟨hp, (hfits.read p hp hlast).mp hle, hlast⟩
  · rintro ⟨hp, hle, hlast⟩
    refine ⟨hp, (hfits.read p hp hlast).mpr hle, hlast, fun hself => ?_⟩
    by_contra hlt
    exact absurd hlast (Int.not_le.mpr (hfits.survives hself p hp (by omega)))

lemma calls_positive (h : argv[1]? = some text) (hend : endpid argv = last argv)
    (hpos : 1 ≤ atoi text ∨ last argv < atoi text) : ∀ pid ∈ (main t argv).calls, 0 < pid := by
  intro pid hpid
  rw [(main_eq h).2] at hpid
  rcases loop_calls hpid with hpid | ⟨hle, hlt⟩
  · exact absurd hpid List.not_mem_nil
  · omega

theorem as_requested_iff (t : Processes) (argv : List (List UInt8)) :
    AsRequested t argv ↔ EndFits argv ∧ ∀ text ∈ argv[1]?, StartFits t argv text := by
  constructor
  · intro h
    exact ⟨honoured_iff.mp h.honoured, fun text htext => h.start htext⟩
  · rintro ⟨hfits, hstart⟩
    have hhon := honoured_iff.mpr hfits
    cases harg : argv[1]? with
    | none =>
      obtain ⟨hreceived, hcalls⟩ := main_usage (t := t) harg
      refine ⟨fun p => ?_, by simp [hcalls], hhon⟩
      simp [hreceived, Between, harg]
    | some text =>
      have htext := hstart text harg
      have hend := endpid_eq hhon
      exact ⟨fun p => mem_main_iff harg hend htext, calls_positive harg hend htext.positive, hhon⟩

/-- `killfrom abc` kills the caller's process group first, whatever its identifiers, and with
it the program. -/
theorem own_group_killed :
    let t : Processes := ⟨{100, 200, 40000}, fun _ => 100, 200, by decide, by decide⟩
    let argv := [bytes "killfrom", bytes "abc"]
    (main t argv).calls = [0] ∧ (main t argv).received = {100, 200, 40000} ∧
      ¬ AsRequested t argv := by
  intro t argv
  have hcalls : (main t argv).calls = [0] := by decide
  refine ⟨hcalls, by decide, fun h => ?_⟩
  exact absurd (h.single 0 (hcalls ▸ List.mem_singleton_self 0)) (by decide)

end UnixProgramming.Killfrom
