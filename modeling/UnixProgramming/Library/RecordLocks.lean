import Mathlib.Order.MinMax
import Mathlib.Tactic

/-! Advisory locks on regions of a file: who holds which bytes, shared or for itself.
The table lists regions; what it stands for is a mode for each owner and byte. -/

namespace UnixProgramming.Library

universe u v

inductive Mode
  | read
  | write
  deriving DecidableEq, Repr

@[ext] structure Region (ι : Type u) [LinearOrder ι] where
  start : ι
  stop : ι
  nonempty : start < stop
  deriving DecidableEq

namespace Region

variable {ι : Type u} [LinearOrder ι]

instance : Membership ι (Region ι) where
  mem r x := r.start ≤ x ∧ x < r.stop

def Overlaps (r s : Region ι) : Prop :=
  r.start < s.stop ∧ s.start < r.stop

def Touches (r s : Region ι) : Prop :=
  r.start ≤ s.stop ∧ s.start ≤ r.stop

instance (r s : Region ι) : Decidable (r.Overlaps s) :=
  inferInstanceAs (Decidable (_ ∧ _))

instance (r s : Region ι) : Decidable (r.Touches s) :=
  inferInstanceAs (Decidable (_ ∧ _))

instance (r : Region ι) (x : ι) : Decidable (x ∈ r) :=
  inferInstanceAs (Decidable (_ ∧ _))

def below (r s : Region ι) : List (Region ι) :=
  if h : r.start < min r.stop s.start then [⟨r.start, min r.stop s.start, h⟩] else []

def above (r s : Region ι) : List (Region ι) :=
  if h : max r.start s.stop < r.stop then [⟨max r.start s.stop, r.stop, h⟩] else []

/-- What is left of a region when the bytes of another one are cut out of it. -/
def minus (r s : Region ι) : List (Region ι) :=
  r.below s ++ r.above s

@[simps] def join (r s : Region ι) : Region ι where
  start := min r.start s.start
  stop := max r.stop s.stop
  nonempty := (min_le_left _ _).trans_lt (r.nonempty.trans_le (le_max_left _ _))

variable {r s t : Region ι} {x : ι}

lemma mem_iff : x ∈ r ↔ r.start ≤ x ∧ x < r.stop :=
  Iff.rfl

lemma overlaps_iff : r.Overlaps s ↔ ∃ x, x ∈ r ∧ x ∈ s := by
  constructor
  · rintro ⟨hrs, hsr⟩
    refine ⟨max r.start s.start, ⟨le_max_left _ _, ?_⟩, le_max_right _ _, ?_⟩
    · exact max_lt r.nonempty hsr
    · exact max_lt hrs s.nonempty
  · rintro ⟨x, hr, hs⟩
    exact ⟨hr.1.trans_lt hs.2, hs.1.trans_lt hr.2⟩

lemma overlaps_comm : r.Overlaps s ↔ s.Overlaps r :=
  and_comm

lemma mem_below : (∃ t ∈ r.below s, x ∈ t) ↔ x ∈ r ∧ x < s.start := by
  by_cases h : r.start < min r.stop s.start
  · rw [below, dif_pos h]
    simp only [List.mem_singleton, exists_eq_left, mem_iff, lt_min_iff]
    exact and_assoc.symm
  · rw [below, dif_neg h]
    simp only [List.not_mem_nil, false_and, exists_false, false_iff]
    rintro ⟨hr, hs⟩
    exact h (lt_min r.nonempty (hr.1.trans_lt hs))

lemma mem_above : (∃ t ∈ r.above s, x ∈ t) ↔ x ∈ r ∧ s.stop ≤ x := by
  by_cases h : max r.start s.stop < r.stop
  · rw [above, dif_pos h]
    simp only [List.mem_singleton, exists_eq_left, mem_iff, max_le_iff]
    exact and_right_comm
  · rw [above, dif_neg h]
    simp only [List.not_mem_nil, false_and, exists_false, false_iff]
    rintro ⟨hr, hs⟩
    exact h (max_lt r.nonempty (hs.trans_lt hr.2))

lemma mem_minus : (∃ t ∈ r.minus s, x ∈ t) ↔ x ∈ r ∧ x ∉ s := by
  have hsplit : (∃ t ∈ r.minus s, x ∈ t) ↔
      (∃ t ∈ r.below s, x ∈ t) ∨ ∃ t ∈ r.above s, x ∈ t := by
    simp only [minus, List.mem_append, or_and_right, exists_or]
  rw [hsplit, mem_below, mem_above, ← and_or_left, mem_iff (r := s), not_and_or, not_le, not_lt]

lemma mem_of_minus (ht : t ∈ r.minus s) (hx : x ∈ t) : x ∈ r ∧ x ∉ s :=
  mem_minus.mp ⟨t, ht, hx⟩

lemma minus_bounds (ht : t ∈ r.minus s) : r.start ≤ t.start ∧ t.stop ≤ r.stop := by
  have hfirst := (mem_of_minus ht ⟨le_refl _, t.nonempty⟩).1
  refine ⟨hfirst.1, ?_⟩
  rcases List.mem_append.mp ht with ht | ht
  · rw [below] at ht
    split_ifs at ht with h
    · rw [List.mem_singleton.mp ht]
      exact min_le_left _ _
    · exact absurd ht List.not_mem_nil
  · rw [above] at ht
    split_ifs at ht with h
    · rw [List.mem_singleton.mp ht]
    · exact absurd ht List.not_mem_nil

lemma Overlaps.touches (h : r.Overlaps s) : r.Touches s :=
  ⟨h.1.le, h.2.le⟩

lemma touches_comm : r.Touches s ↔ s.Touches r :=
  and_comm

lemma below_stop (ht : t ∈ r.below s) : t.stop ≤ s.start := by
  rw [below] at ht
  split_ifs at ht with h
  · rw [List.mem_singleton.mp ht]
    exact min_le_right _ _
  · exact absurd ht List.not_mem_nil

lemma above_start (ht : t ∈ r.above s) : s.stop ≤ t.start := by
  rw [above] at ht
  split_ifs at ht with h
  · rw [List.mem_singleton.mp ht]
    exact le_max_right _ _
  · exact absurd ht List.not_mem_nil

lemma minus_pairwise : (r.minus s).Pairwise fun t u => ¬ t.Touches u := by
  have hside : ∀ {l : List (Region ι)} (_ : l.length ≤ 1),
      l.Pairwise fun t u => ¬ t.Touches u := by
    rintro (_ | ⟨t, _ | ⟨u, l⟩⟩) hl
    · exact .nil
    · exact List.pairwise_singleton _ _
    · simp at hl
  rw [minus, List.pairwise_append]
  refine ⟨hside ?_, hside ?_, fun t ht u hu ho => ?_⟩
  · rw [below]
    split_ifs <;> simp
  · rw [above]
    split_ifs <;> simp
  · have hle := ((above_start hu).trans ho.2).trans (below_stop ht)
    exact absurd s.nonempty (not_lt.mpr hle)

lemma Touches.mem_join (h : r.Touches s) : x ∈ r.join s ↔ x ∈ r ∨ x ∈ s := by
  simp only [mem_iff, join_start, join_stop, min_le_iff, lt_max_iff]
  constructor
  · rintro ⟨hr | hs, hr' | hs'⟩
    · exact .inl ⟨hr, hr'⟩
    · rcases lt_or_ge x r.stop with hx | hx
      · exact .inl ⟨hr, hx⟩
      · exact .inr ⟨h.2.trans hx, hs'⟩
    · rcases lt_or_ge x s.stop with hx | hx
      · exact .inr ⟨hs, hx⟩
      · exact .inl ⟨h.1.trans hx, hr'⟩
    · exact .inr ⟨hs, hs'⟩
  · rintro (⟨hr, hr'⟩ | ⟨hs, hs'⟩)
    · exact ⟨.inl hr, .inl hr'⟩
    · exact ⟨.inr hs, .inr hs'⟩

lemma Touches.join_touches (h : r.Touches s) :
    (r.join s).Touches t ↔ r.Touches t ∨ s.Touches t := by
  simp only [Touches, join_start, join_stop, min_le_iff, le_max_iff]
  constructor
  · rintro ⟨hr | hs, hr' | hs'⟩
    · exact .inl ⟨hr, hr'⟩
    · rcases le_total t.start r.stop with ht | ht
      · exact .inl ⟨hr, ht⟩
      · exact .inr ⟨(h.2.trans ht).trans t.nonempty.le, hs'⟩
    · rcases le_total t.start s.stop with ht | ht
      · exact .inr ⟨hs, ht⟩
      · exact .inl ⟨(h.1.trans ht).trans t.nonempty.le, hr'⟩
    · exact .inr ⟨hs, hs'⟩
  · rintro (⟨hr, hr'⟩ | ⟨hs, hs'⟩)
    · exact ⟨.inl hr, .inl hr'⟩
    · exact ⟨.inr hs, .inr hs'⟩

def joins (r : Region ι) (l : List (Region ι)) : Region ι :=
  l.foldl join r

lemma joins_spec {l : List (Region ι)} (h : ∀ s ∈ l, s.Touches r) :
    (∀ x, x ∈ r.joins l ↔ x ∈ r ∨ ∃ s ∈ l, x ∈ s) ∧
      ∀ t, (r.joins l).Touches t ↔ r.Touches t ∨ ∃ s ∈ l, s.Touches t := by
  induction l generalizing r with
  | nil => simp [joins]
  | cons s l ih =>
    rw [List.forall_mem_cons] at h
    have hrs : r.Touches s := touches_comm.mp h.1
    have hrest : ∀ u ∈ l, u.Touches (r.join s) := fun u hu =>
      touches_comm.mp (hrs.join_touches.mpr (.inl (touches_comm.mp (h.2 u hu))))
    obtain ⟨hmem, htouches⟩ := ih hrest
    constructor
    · intro x
      rw [joins, List.foldl_cons, ← joins, hmem, hrs.mem_join, List.exists_mem_cons_iff, or_assoc]
    · intro t
      rw [joins, List.foldl_cons, ← joins, htouches, hrs.join_touches, List.exists_mem_cons_iff,
        or_assoc]

end Region

structure Lock (ι : Type u) (ω : Type v) [LinearOrder ι] where
  owner : ω
  mode : Mode
  region : Region ι
  deriving DecidableEq

variable {ι : Type u} {ω : Type v} [LinearOrder ι]

/-- Two locks that may stand in one table. -/
def Lock.Compatible (k l : Lock ι ω) : Prop :=
  k.region.Overlaps l.region → k.owner ≠ l.owner ∧ k.mode = .read ∧ l.mode = .read

instance : Std.Symm (@Lock.Compatible ι ω _) where
  symm k l h ho := by
    obtain ⟨hne, hk, hl⟩ := h (Region.overlaps_comm.mp ho)
    exact ⟨hne.symm, hl, hk⟩

/-- Two locks that are not one lock in two parts. -/
def Lock.Apart (k l : Lock ι ω) : Prop :=
  k.owner = l.owner → k.mode = l.mode → ¬ k.region.Touches l.region

instance : Std.Symm (@Lock.Apart ι ω _) where
  symm _ _ h ho hm ht := h ho.symm hm.symm (Region.touches_comm.mp ht)

structure RecordLocks (ι : Type u) (ω : Type v) [LinearOrder ι] where
  locks : List (Lock ι ω)
  compatible : locks.Pairwise Lock.Compatible
  apart : locks.Pairwise Lock.Apart

namespace RecordLocks

@[simps] def empty : RecordLocks ι ω where
  locks := []
  compatible := .nil
  apart := .nil

variable [DecidableEq ω]

def Blocks (w : ω) (m : Mode) (r : Region ι) (k : Lock ι ω) : Prop :=
  k.owner ≠ w ∧ k.region.Overlaps r ∧ (m = .write ∨ k.mode = .write)

instance (w : ω) (m : Mode) (r : Region ι) (k : Lock ι ω) : Decidable (Blocks w m r k) :=
  inferInstanceAs (Decidable (_ ∧ _))

def Blocked (t : RecordLocks ι ω) (w : ω) (m : Mode) (r : Region ι) : Prop :=
  ∃ k ∈ t.locks, Blocks w m r k

instance (t : RecordLocks ι ω) (w : ω) (m : Mode) (r : Region ι) : Decidable (t.Blocked w m r) :=
  inferInstanceAs (Decidable (∃ k ∈ _, _))

/-- What is left of a lock when its owner gives up a region. -/
def rest (w : ω) (r : Region ι) (k : Lock ι ω) : List (Lock ι ω) :=
  if k.owner = w then (k.region.minus r).map fun s => { k with region := s } else [k]

variable {t t' : RecordLocks ι ω} {w u : ω} {m m' : Mode} {r s : Region ι} {k l : Lock ι ω} {x : ι}

lemma mem_rest (h : l ∈ rest w r k) : l.owner = k.owner ∧ l.mode = k.mode ∧
    ∀ x ∈ l.region, x ∈ k.region ∧ (k.owner = w → x ∉ r) := by
  by_cases hk : k.owner = w
  · rw [rest, if_pos hk] at h
    obtain ⟨s, hs, rfl⟩ := List.mem_map.mp h
    exact ⟨rfl, rfl, fun x hx => (Region.mem_of_minus hs hx).imp_right fun hn _ => hn⟩
  · rw [rest, if_neg hk, List.mem_singleton] at h
    subst h
    exact ⟨rfl, rfl, fun x hx => ⟨hx, fun hw => absurd hw hk⟩⟩

lemma rest_bounds (h : l ∈ rest w r k) :
    k.region.start ≤ l.region.start ∧ l.region.stop ≤ k.region.stop := by
  by_cases hk : k.owner = w
  · rw [rest, if_pos hk] at h
    obtain ⟨s, hs, rfl⟩ := List.mem_map.mp h
    exact Region.minus_bounds hs
  · rw [rest, if_neg hk, List.mem_singleton] at h
    subst h
    exact ⟨le_refl _, le_refl _⟩

lemma rest_touches (h : l ∈ rest w r k) (ht : l.region.Touches s) : k.region.Touches s := by
  obtain ⟨hstart, hstop⟩ := rest_bounds h
  exact ⟨hstart.trans ht.1, ht.2.trans hstop⟩

lemma rest_pairwise {R : Lock ι ω → Lock ι ω → Prop}
    (h : ∀ k l, ¬ k.region.Touches l.region → R k l) : (rest w r k).Pairwise R := by
  rw [rest]
  split_ifs
  · rw [List.pairwise_map]
    exact Region.minus_pairwise.imp fun hn => h _ _ hn
  · exact List.pairwise_singleton _ _

lemma rest_compatible {k' l' : Lock ι ω} (h : k.Compatible l) (hk : k' ∈ rest w r k)
    (hl : l' ∈ rest w r l) : k'.Compatible l' := by
  obtain ⟨hok, hmk, hxk⟩ := mem_rest hk
  obtain ⟨hol, hml, hxl⟩ := mem_rest hl
  intro ho
  obtain ⟨x, hx, hx'⟩ := Region.overlaps_iff.mp ho
  rw [hok, hol, hmk, hml]
  exact h (Region.overlaps_iff.mpr ⟨x, (hxk x hx).1, (hxl x hx').1⟩)

lemma rest_apart {k' l' : Lock ι ω} (h : k.Apart l) (hk : k' ∈ rest w r k)
    (hl : l' ∈ rest w r l) : k'.Apart l' := by
  obtain ⟨hok, hmk, -⟩ := mem_rest hk
  obtain ⟨hol, hml, -⟩ := mem_rest hl
  intro ho hm ht
  rw [hok, hol] at ho
  rw [hmk, hml] at hm
  exact h ho hm (Region.touches_comm.mp (rest_touches hl (Region.touches_comm.mp
    (rest_touches hk ht))))

def clear (t : RecordLocks ι ω) (w : ω) (r : Region ι) : RecordLocks ι ω where
  locks := t.locks.flatMap (rest w r)
  compatible := by
    rw [List.pairwise_flatMap]
    refine ⟨fun k _ => rest_pairwise fun _ _ hn ho => absurd ho.touches hn,
      t.compatible.imp fun h k hk l hl => ?_⟩
    exact rest_compatible h hk hl
  apart := by
    rw [List.pairwise_flatMap]
    refine ⟨fun k _ => rest_pairwise fun _ _ hn _ _ => hn, t.apart.imp fun h k hk l hl => ?_⟩
    exact rest_apart h hk hl

lemma clear_avoids (h : l ∈ (t.clear w r).locks) (hw : l.owner = w) (hx : x ∈ l.region) :
    x ∉ r := by
  obtain ⟨k, -, hk⟩ := List.mem_flatMap.mp h
  obtain ⟨ho, -, hall⟩ := mem_rest hk
  exact (hall x hx).2 (ho.symm.trans hw)

lemma holder_unique (hk : k ∈ t.locks) (hl : l ∈ t.locks) (ho : k.owner = l.owner)
    (hx : x ∈ k.region) (hx' : x ∈ l.region) : k = l := by
  by_contra hne
  have hcomp : k.Compatible l := t.compatible.forall hk hl hne
  exact (hcomp (Region.overlaps_iff.mpr ⟨x, hx, hx'⟩)).1 ho

lemma touching_unique (hk : k ∈ t.locks) (hl : l ∈ t.locks) (ho : k.owner = l.owner)
    (hm : k.mode = l.mode) (ht : k.region.Touches l.region) : k = l := by
  by_contra hne
  have hapart : k.Apart l := t.apart.forall hk hl hne
  exact hapart ho hm ht

/-- A lock that becomes one with a new one of its owner. -/
def Joins (w : ω) (m : Mode) (r : Region ι) (k : Lock ι ω) : Prop :=
  k.owner = w ∧ k.mode = m ∧ k.region.Touches r

instance (w : ω) (m : Mode) (r : Region ι) (k : Lock ι ω) : Decidable (Joins w m r k) :=
  inferInstanceAs (Decidable (_ ∧ _))

def merged (t : RecordLocks ι ω) (w : ω) (m : Mode) (r : Region ι) : Region ι :=
  r.joins ((t.locks.filter (Joins w m r)).map Lock.region)

def others (t : RecordLocks ι ω) (w : ω) (m : Mode) (r : Region ι) : RecordLocks ι ω where
  locks := t.locks.filter fun k => ¬ Joins w m r k
  compatible := t.compatible.filter _
  apart := t.apart.filter _

lemma mem_others : k ∈ (t.others w m r).locks ↔ k ∈ t.locks ∧ ¬ Joins w m r k := by
  simp [others]

lemma merged_spec :
    (∀ x, x ∈ t.merged w m r ↔ x ∈ r ∨ ∃ k ∈ t.locks, Joins w m r k ∧ x ∈ k.region) ∧
    ∀ s, (t.merged w m r).Touches s ↔
      r.Touches s ∨ ∃ k ∈ t.locks, Joins w m r k ∧ k.region.Touches s := by
  have htouch : ∀ s ∈ (t.locks.filter (Joins w m r)).map Lock.region, s.Touches r := by
    intro s hs
    obtain ⟨k, hk, rfl⟩ := List.mem_map.mp hs
    exact (of_decide_eq_true (List.mem_filter.mp hk).2).2.2
  have hjoins : ∀ p : Region ι → Prop,
      (∃ s ∈ (t.locks.filter (Joins w m r)).map Lock.region, p s) ↔
        ∃ k ∈ t.locks, Joins w m r k ∧ p k.region := by
    intro p
    simp only [List.mem_map, List.mem_filter, decide_eq_true_eq]
    constructor
    · rintro ⟨_, ⟨k, ⟨hk, hj⟩, rfl⟩, hp⟩
      exact ⟨k, hk, hj, hp⟩
    · rintro ⟨k, hk, hj, hp⟩
      exact ⟨_, ⟨k, ⟨hk, hj⟩, rfl⟩, hp⟩
  obtain ⟨hmem, htouches⟩ := Region.joins_spec htouch
  exact ⟨fun x => (hmem x).trans (or_congr_right (hjoins (x ∈ ·))),
    fun s => (htouches s).trans (or_congr_right (hjoins (·.Touches s)))⟩

lemma mem_merged : x ∈ t.merged w m r ↔ x ∈ r ∨ ∃ k ∈ t.locks, Joins w m r k ∧ x ∈ k.region :=
  merged_spec.1 x

lemma merged_compatible (h : ¬ t.Blocked w m r) (hl : l ∈ ((t.others w m r).clear w r).locks) :
    Lock.Compatible ⟨w, m, t.merged w m r⟩ l := by
  intro ho
  obtain ⟨x, hx, hxl⟩ := Region.overlaps_iff.mp ho
  obtain ⟨k, hk, hlk⟩ := List.mem_flatMap.mp hl
  obtain ⟨hok, hmk, hxk⟩ := mem_rest hlk
  obtain ⟨hk, hn⟩ := mem_others.mp hk
  have hkx := (hxk x hxl).1
  rcases mem_merged.mp hx with hxr | ⟨j, hj, ⟨hjw, hjm, hjr⟩, hxj⟩
  · have hne : l.owner ≠ w := fun hw => clear_avoids hl hw hxl hxr
    have hfree : ¬ Blocks w m r k := fun hb => h ⟨k, hk, hb⟩
    have hmode : ¬ (m = .write ∨ k.mode = .write) := fun hm =>
      hfree ⟨hok ▸ hne, Region.overlaps_iff.mpr ⟨x, hkx, hxr⟩, hm⟩
    rw [not_or] at hmode
    refine ⟨hne.symm, ?_, ?_⟩
    · cases m with
      | read => rfl
      | write => exact absurd rfl hmode.1
    · rw [hmk]
      cases hk' : k.mode with
      | read => rfl
      | write => exact absurd hk' hmode.2
  · have hjk : j ≠ k := by
      rintro rfl
      exact hn ⟨hjw, hjm, hjr⟩
    have hcomp : j.Compatible k := t.compatible.forall hj hk hjk
    have hread := hcomp (Region.overlaps_iff.mpr ⟨x, hxj, hkx⟩)
    rw [hjw, hjm, ← hok, ← hmk] at hread
    exact hread

lemma merged_apart (hl : l ∈ ((t.others w m r).clear w r).locks) :
    Lock.Apart ⟨w, m, t.merged w m r⟩ l := by
  intro ho hm ht
  obtain ⟨k, hk, hlk⟩ := List.mem_flatMap.mp hl
  obtain ⟨hok, hmk, -⟩ := mem_rest hlk
  obtain ⟨hk, hn⟩ := mem_others.mp hk
  have hkt := rest_touches hlk (Region.touches_comm.mp ht)
  have hkw : k.owner = w := (ho.trans hok).symm
  have hkm : k.mode = m := (hm.trans hmk).symm
  rcases (merged_spec.2 _).mp (Region.touches_comm.mp hkt) with hr | ⟨j, hj, hjoins, hjk⟩
  · exact hn ⟨hkw, hkm, Region.touches_comm.mp hr⟩
  · have hne : j ≠ k := by
      rintro rfl
      exact hn hjoins
    have hapart : j.Apart k := t.apart.forall hj hk hne
    exact hapart (hjoins.1.trans hkw.symm) (hjoins.2.1.trans hkm.symm) hjk

/-- A new lock replaces what its owner held in the region, and is merged with the locks of its
owner and mode next to it. -/
def set (t : RecordLocks ι ω) (w : ω) (m : Mode) (r : Region ι) : Option (RecordLocks ι ω) :=
  if h : t.Blocked w m r then none
  else some {
    locks := ⟨w, m, t.merged w m r⟩ :: ((t.others w m r).clear w r).locks
    compatible := .cons (fun _ hl => merged_compatible h hl) (clear _ w r).compatible
    apart := .cons (fun _ hl => merged_apart hl) (clear _ w r).apart }

def release (t : RecordLocks ι ω) (w : ω) : RecordLocks ι ω where
  locks := t.locks.filter fun k => k.owner ≠ w
  compatible := t.compatible.filter _
  apart := t.apart.filter _

/-- The mode in which an owner holds a byte. -/
def view (t : RecordLocks ι ω) (w : ω) (x : ι) : Option Mode :=
  (t.locks.find? fun k => k.owner = w ∧ x ∈ k.region).map Lock.mode

lemma view_eq_some : t.view w x = some m ↔
    ∃ k ∈ t.locks, k.owner = w ∧ x ∈ k.region ∧ k.mode = m := by
  simp only [view, Option.map_eq_some_iff]
  constructor
  · rintro ⟨k, hk, hm⟩
    have hp : k.owner = w ∧ x ∈ k.region := by simpa using List.find?_some hk
    exact ⟨k, List.mem_of_find?_eq_some hk, hp.1, hp.2, hm⟩
  · rintro ⟨k, hk, hw, hx, hm⟩
    obtain ⟨l, hl⟩ : ∃ l, (t.locks.find? fun k => k.owner = w ∧ x ∈ k.region) = some l := by
      rw [← Option.isSome_iff_exists, List.find?_isSome]
      exact ⟨k, hk, by simpa using ⟨hw, hx⟩⟩
    have hp : l.owner = w ∧ x ∈ l.region := by simpa using List.find?_some hl
    have hkl : k = l :=
      holder_unique hk (List.mem_of_find?_eq_some hl) (hw.trans hp.1.symm) hx hp.2
    exact ⟨l, hl, hkl ▸ hm⟩

@[simp] lemma view_empty : (empty : RecordLocks ι ω).view w x = none :=
  rfl

/-- Nobody else holds a byte that one owner holds for itself. -/
theorem view_exclusive (h : t.view w x = some .write) (hne : u ≠ w) : t.view u x = none := by
  rw [Option.eq_none_iff_forall_ne_some]
  intro m hm
  obtain ⟨k, hk, hkw, hkx, hkm⟩ := view_eq_some.mp h
  obtain ⟨l, hl, hlu, hlx, -⟩ := view_eq_some.mp hm
  have hkl : k ≠ l := by
    rintro rfl
    exact hne (hlu.symm.trans hkw)
  have hcomp : k.Compatible l := t.compatible.forall hk hl hkl
  have hmode := (hcomp (Region.overlaps_iff.mpr ⟨x, hkx, hlx⟩)).2.1
  rw [hkm] at hmode
  cases hmode

theorem view_clear : (t.clear w r).view u x = if u = w ∧ x ∈ r then none else t.view u x := by
  split_ifs with h
  · rw [Option.eq_none_iff_forall_ne_some]
    intro m hm
    obtain ⟨l, hl, hlu, hlx, -⟩ := view_eq_some.mp hm
    exact clear_avoids hl (hlu.trans h.1) hlx h.2
  · refine Option.ext fun m => ?_
    rw [view_eq_some, view_eq_some]
    constructor
    · rintro ⟨l, hl, hlu, hlx, hlm⟩
      obtain ⟨k, hk, hlk⟩ := List.mem_flatMap.mp hl
      obtain ⟨ho, hmode, hx⟩ := mem_rest hlk
      exact ⟨k, hk, ho.symm.trans hlu, (hx x hlx).1, hmode.symm.trans hlm⟩
    · rintro ⟨k, hk, hku, hkx, hkm⟩
      by_cases hw : k.owner = w
      · have hxr : x ∉ r := fun hxr => h ⟨hku.symm.trans hw, hxr⟩
        obtain ⟨s, hs, hxs⟩ := Region.mem_minus.mpr ⟨hkx, hxr⟩
        have hmem : { k with region := s } ∈ rest w r k := by
          rw [rest, if_pos hw]
          exact List.mem_map_of_mem hs
        exact ⟨_, List.mem_flatMap.mpr ⟨k, hk, hmem⟩, hku, hxs, hkm⟩
      · have hmem : k ∈ rest w r k := by simp [rest, hw]
        exact ⟨k, List.mem_flatMap.mpr ⟨k, hk, hmem⟩, hku, hkx, hkm⟩

lemma set_view_some (h : t.set w m r = some t') : t'.view u x = some m' ↔
    (u = w ∧ x ∈ t.merged w m r ∧ m = m') ∨
      ((t.others w m r).clear w r).view u x = some m' := by
  simp only [set] at h
  split_ifs at h with hb
  obtain rfl := Option.some.inj h
  simp only [view_eq_some, List.exists_mem_cons_iff, eq_comm (a := w)]

theorem view_set (h : t.set w m r = some t') :
    t'.view u x = if u = w ∧ x ∈ r then some m else t.view u x := by
  split_ifs with hu
  · obtain ⟨rfl, hx⟩ := hu
    exact (set_view_some h).mpr (.inl ⟨rfl, mem_merged.mpr (.inl hx), rfl⟩)
  · refine Option.ext fun n => ?_
    rw [set_view_some h, view_clear, if_neg hu, view_eq_some, view_eq_some]
    constructor
    · rintro (⟨rfl, hx, rfl⟩ | ⟨k, hk, hk'⟩)
      · rcases mem_merged.mp hx with hx | ⟨j, hj, ⟨hju, hjm, -⟩, hxj⟩
        · exact absurd ⟨rfl, hx⟩ hu
        · exact ⟨j, hj, hju, hxj, hjm⟩
      · exact ⟨k, (mem_others.mp hk).1, hk'⟩
    · rintro ⟨k, hk, hku, hkx, hkm⟩
      by_cases hj : Joins w m r k
      · exact .inl ⟨hku.symm.trans hj.1, mem_merged.mpr (.inr ⟨k, hk, hj, hkx⟩),
          hj.2.1.symm.trans hkm⟩
      · exact .inr ⟨k, mem_others.mpr ⟨hk, hj⟩, hku, hkx, hkm⟩

theorem view_release : (t.release w).view u x = if u = w then none else t.view u x := by
  split_ifs with h
  · rw [Option.eq_none_iff_forall_ne_some]
    intro m hm
    obtain ⟨k, hk, hku, -, -⟩ := view_eq_some.mp hm
    have hne := of_decide_eq_true (List.mem_filter.mp hk).2
    exact hne (hku.trans h)
  · refine Option.ext fun m => ?_
    rw [view_eq_some, view_eq_some]
    constructor
    · rintro ⟨k, hk, hk'⟩
      exact ⟨k, (List.mem_filter.mp hk).1, hk'⟩
    · rintro ⟨k, hk, hku, hk'⟩
      have hne : k.owner ≠ w := fun hw => h (hku.symm.trans hw)
      exact ⟨k, List.mem_filter.mpr ⟨hk, by simpa using hne⟩, hku, hk'⟩

theorem blocked_iff : t.Blocked w m r ↔
    ∃ u x, u ≠ w ∧ x ∈ r ∧ ∃ n, t.view u x = some n ∧ (m = .write ∨ n = .write) := by
  constructor
  · rintro ⟨k, hk, hne, ho, hm⟩
    obtain ⟨x, hx, hxr⟩ := Region.overlaps_iff.mp ho
    exact ⟨k.owner, x, hne, hxr, k.mode, view_eq_some.mpr ⟨k, hk, rfl, hx, rfl⟩, hm⟩
  · rintro ⟨u, x, hne, hxr, n, hn, hm⟩
    obtain ⟨k, hk, rfl, hx, rfl⟩ := view_eq_some.mp hn
    exact ⟨k, hk, hne, Region.overlaps_iff.mpr ⟨x, hx, hxr⟩, hm⟩

lemma exists_set (h : ¬ t.Blocked w m r) : ∃ t', t.set w m r = some t' :=
  ⟨_, dif_neg h⟩

lemma set_unblocked (h : t.set w m r = some t') : ¬ t.Blocked w m r := by
  intro hb
  rw [set, dif_pos hb] at h
  cases h

end RecordLocks

end UnixProgramming.Library
