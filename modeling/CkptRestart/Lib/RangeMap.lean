import Mathlib.Data.List.Basic
import Mathlib.Data.List.Pairwise
import Mathlib.Order.MinMax

/-!
# RangeMap — values on disjoint ranges of numbers

A map from numbers to values that is constant on finitely many half-open ranges, kept as the list of
these ranges.  No range is empty and no two overlap; the structure carries both facts.

`modify` changes or removes the values on one range, cutting the ranges that reach across its ends;
`insert` replaces whatever was there.  `lookup_modify` and `lookup_insert` say what they do to each
number, `segs_insert_of_free` and `segs_modify_head` what they do to the list itself when nothing
has to be cut.
-/

namespace CkptRestart
namespace Lib

/-! ## Ranges -/

/-- A value on the numbers from `lo` to before `hi`. -/
structure Seg (β : Type) where
  lo : Nat
  hi : Nat
  val : β
  deriving DecidableEq, Repr

namespace Seg

variable {β : Type}

def Has (s : Seg β) (x : Nat) : Prop := s.lo ≤ x ∧ x < s.hi

instance (s : Seg β) (x : Nat) : Decidable (s.Has x) :=
  inferInstanceAs (Decidable (_ ∧ _))

/-- The range ends before `lo` or starts at `hi` or later. -/
def Apart (s : Seg β) (lo hi : Nat) : Prop := s.hi ≤ lo ∨ hi ≤ s.lo

instance (s : Seg β) (lo hi : Nat) : Decidable (s.Apart lo hi) :=
  inferInstanceAs (Decidable (_ ∨ _))

/-- The pieces of a range when the values from `lo` to before `hi` change by `f`: what lies before,
what lies inside if it is kept at all, and what lies after. -/
def cut (f : β → Option β) (lo hi : Nat) (s : Seg β) : List (Seg β) :=
  (if s.lo < min s.hi lo then [⟨s.lo, min s.hi lo, s.val⟩] else []) ++
    ((if max s.lo lo < min s.hi hi then
        (f s.val).toList.map fun v => ⟨max s.lo lo, min s.hi hi, v⟩
      else []) ++
      if max s.lo (max lo hi) < s.hi then [⟨max s.lo (max lo hi), s.hi, s.val⟩] else [])

/-- A piece is a nonempty part of the range, outside the changed numbers with the old value or inside
them with a new one. -/
theorem mem_cut {f : β → Option β} {lo hi : Nat} {s t : Seg β} (h : t ∈ s.cut f lo hi) :
    s.lo ≤ t.lo ∧ t.lo < t.hi ∧ t.hi ≤ s.hi ∧
      ((t.val = s.val ∧ ∀ x, t.Has x → ¬ (lo ≤ x ∧ x < hi)) ∨
        (f s.val = some t.val ∧ ∀ x, t.Has x → lo ≤ x ∧ x < hi)) := by
  simp only [cut, List.mem_append] at h
  rcases h with hbefore | hinside | hafter
  · split at hbefore
    · obtain rfl := List.mem_singleton.1 hbefore
      refine ⟨le_rfl, by assumption, by simp, Or.inl ⟨rfl, ?_⟩⟩
      intro x hx
      simp only [Has] at hx
      omega
    · simp at hbefore
  · split at hinside
    · rcases List.mem_map.1 hinside with ⟨v, hv, rfl⟩
      refine ⟨by simp, by assumption, by simp, Or.inr ⟨by simpa using hv, ?_⟩⟩
      intro x hx
      simp only [Has] at hx
      omega
    · simp at hinside
  · split at hafter
    · obtain rfl := List.mem_singleton.1 hafter
      refine ⟨by simp, by assumption, le_rfl, Or.inl ⟨rfl, ?_⟩⟩
      intro x hx
      simp only [Has] at hx
      omega
    · simp at hafter

/-- A number of the range outside the changed ones stays in a piece. -/
theorem exists_cut_outside (f : β → Option β) {lo hi : Nat} {s : Seg β} {x : Nat} (hx : s.Has x)
    (hout : ¬ (lo ≤ x ∧ x < hi)) : ∃ t ∈ s.cut f lo hi, t.Has x ∧ t.val = s.val := by
  simp only [Has] at hx
  by_cases hlo : x < lo
  · have hne : s.lo < min s.hi lo := by omega
    refine ⟨⟨s.lo, min s.hi lo, s.val⟩, by simp [cut, hne], ?_, rfl⟩
    simp only [Has]
    omega
  · have hne : max s.lo (max lo hi) < s.hi := by omega
    refine ⟨⟨max s.lo (max lo hi), s.hi, s.val⟩, by simp [cut, hne], ?_, rfl⟩
    simp only [Has]
    omega

/-- A changed number of the range stays in a piece if its value is kept. -/
theorem exists_cut_inside {f : β → Option β} {lo hi : Nat} {s : Seg β} {x : Nat} {v : β}
    (hx : s.Has x) (hin : lo ≤ x ∧ x < hi) (hv : f s.val = some v) :
    ∃ t ∈ s.cut f lo hi, t.Has x ∧ t.val = v := by
  simp only [Has] at hx
  have hne : max s.lo lo < min s.hi hi := by omega
  refine ⟨⟨max s.lo lo, min s.hi hi, v⟩, by simp [cut, hne, hv], ?_, rfl⟩
  simp only [Has]
  omega

theorem cut_of_apart (f : β → Option β) {lo hi : Nat} {s : Seg β} (hs : s.lo < s.hi)
    (hlo : lo ≤ hi) (h : s.Apart lo hi) : s.cut f lo hi = [s] := by
  rcases h with h | h
  · have hbefore : s.lo < min s.hi lo := by omega
    have hinside : ¬ max s.lo lo < min s.hi hi := by omega
    have hafter : ¬ max s.lo (max lo hi) < s.hi := by omega
    rw [cut, if_pos hbefore, if_neg hinside, if_neg hafter, min_eq_left h]
    rfl
  · have hbefore : ¬ s.lo < min s.hi lo := by omega
    have hinside : ¬ max s.lo lo < min s.hi hi := by omega
    have hafter : max s.lo (max lo hi) < s.hi := by omega
    have hstart : max s.lo (max lo hi) = s.lo := by omega
    rw [cut, if_neg hbefore, if_neg hinside, if_pos hafter, hstart]
    rfl

theorem cut_self {f : β → Option β} {s : Seg β} {v : β} (hs : s.lo < s.hi)
    (hv : f s.val = some v) : s.cut f s.lo s.hi = [⟨s.lo, s.hi, v⟩] := by
  have hbefore : ¬ s.lo < min s.hi s.lo := by omega
  have hafter : ¬ max s.lo (max s.lo s.hi) < s.hi := by omega
  rw [cut, if_neg hbefore, if_neg hafter]
  simp [hv, hs]

end Seg

/-! ## Maps -/

structure RangeMap (β : Type) where
  segs : List (Seg β)
  nonempty : ∀ s ∈ segs, s.lo < s.hi
  disjoint : segs.Pairwise fun s t => s.Apart t.lo t.hi

namespace RangeMap

variable {β : Type}

def lookup (m : RangeMap β) (x : Nat) : Option β :=
  (m.segs.find? fun s => decide (s.Has x)).map Seg.val

def Free (m : RangeMap β) (lo hi : Nat) : Prop := ∀ s ∈ m.segs, s.Apart lo hi

instance (m : RangeMap β) (lo hi : Nat) : Decidable (m.Free lo hi) :=
  inferInstanceAs (Decidable (∀ s ∈ m.segs, s.Apart lo hi))

theorem eq_of_has {m : RangeMap β} {s t : Seg β} {x : Nat} (hs : s ∈ m.segs) (ht : t ∈ m.segs)
    (hxs : s.Has x) (hxt : t.Has x) : s = t := by
  have hsymm : Std.Symm fun s t : Seg β => s.Apart t.lo t.hi :=
    ⟨fun s t h => by simp only [Seg.Apart] at *; omega⟩
  by_contra hne
  have hapart := m.disjoint.forall hs ht hne
  simp only [Seg.Apart, Seg.Has] at *
  omega

theorem lookup_eq_some_iff {m : RangeMap β} {x : Nat} {v : β} :
    m.lookup x = some v ↔ ∃ s ∈ m.segs, s.Has x ∧ s.val = v := by
  constructor
  · intro h
    rcases Option.map_eq_some_iff.1 h with ⟨s, hfind, rfl⟩
    exact ⟨s, List.mem_of_find?_eq_some hfind, by simpa using List.find?_some hfind, rfl⟩
  · rintro ⟨s, hs, hx, rfl⟩
    have hsome : (m.segs.find? fun s => decide (s.Has x)).isSome := by
      rw [List.find?_isSome]
      exact ⟨s, hs, by simpa using hx⟩
    rcases Option.isSome_iff_exists.1 hsome with ⟨t, ht⟩
    have hxt : t.Has x := by simpa using List.find?_some ht
    obtain rfl := eq_of_has hs (List.mem_of_find?_eq_some ht) hx hxt
    simp [lookup, ht]

theorem lookup_eq_none_iff {m : RangeMap β} {x : Nat} :
    m.lookup x = none ↔ ∀ s ∈ m.segs, ¬ s.Has x := by
  simp [lookup, List.find?_eq_none]

/-- Between `lo` and `hi` no number has a value. -/
theorem free_iff {m : RangeMap β} {lo hi : Nat} (hne : lo < hi) :
    m.Free lo hi ↔ ∀ x, lo ≤ x → x < hi → m.lookup x = none := by
  constructor
  · intro h x hlo hhi
    rw [lookup_eq_none_iff]
    intro s hs hx
    have := h s hs
    simp only [Seg.Apart, Seg.Has] at *
    omega
  · intro h s hs
    by_contra hnot
    -- a range that reaches in holds the larger of the two starts
    have hnes := m.nonempty s hs
    simp only [Seg.Apart, not_or, not_le] at hnot
    have hnone := lookup_eq_none_iff.1 (h (max s.lo lo) (by omega) (by omega)) s hs
    simp only [Seg.Has] at hnone
    omega

/-! ## Changing a range -/

/-- Change the values between `lo` and `hi` by `f`, where `none` removes them. -/
def modify (f : β → Option β) (lo hi : Nat) (m : RangeMap β) : RangeMap β where
  segs := m.segs.flatMap (Seg.cut f lo hi)
  nonempty := by
    intro t ht
    rcases List.mem_flatMap.1 ht with ⟨s, _, hcut⟩
    exact (Seg.mem_cut hcut).2.1
  disjoint := by
    rw [List.pairwise_flatMap]
    refine ⟨?_, ?_⟩
    · intro s _
      -- the three pieces of one range lie one after the other
      simp only [Seg.cut]
      split <;> split <;> split <;>
        cases f s.val <;> simp [Seg.Apart]
    · refine m.disjoint.imp ?_
      intro s t hapart u hu v hv
      have hus := Seg.mem_cut hu
      have hvt := Seg.mem_cut hv
      simp only [Seg.Apart] at *
      omega

theorem lookup_modify (f : β → Option β) (lo hi : Nat) (m : RangeMap β) (x : Nat) :
    (m.modify f lo hi).lookup x =
      if lo ≤ x ∧ x < hi then (m.lookup x).bind f else m.lookup x := by
  apply Option.ext
  intro v
  rw [lookup_eq_some_iff]
  constructor
  · rintro ⟨t, ht, hx, rfl⟩
    -- the piece that holds `x` was cut from the range that did
    rcases List.mem_flatMap.1 ht with ⟨s, hs, hcut⟩
    rcases Seg.mem_cut hcut with ⟨hlo, _, hhi, hval⟩
    have hxs : s.Has x := by
      simp only [Seg.Has] at *
      omega
    have hlook : m.lookup x = some s.val := lookup_eq_some_iff.2 ⟨s, hs, hxs, rfl⟩
    rcases hval with ⟨hval, hout⟩ | ⟨hval, hin⟩
    · rw [if_neg (hout x hx), hlook, hval]
    · rw [if_pos (hin x hx), hlook, Option.bind_some, hval]
  · intro h
    -- and that range leaves a piece that holds `x`
    split at h
    · next hin =>
        rcases Option.bind_eq_some_iff.1 h with ⟨u, hlook, hv⟩
        rcases lookup_eq_some_iff.1 hlook with ⟨s, hs, hx, rfl⟩
        rcases Seg.exists_cut_inside hx hin hv with ⟨t, ht, hxt, hval⟩
        exact ⟨t, List.mem_flatMap.2 ⟨s, hs, ht⟩, hxt, hval⟩
    · next hout =>
        rcases lookup_eq_some_iff.1 h with ⟨s, hs, hx, rfl⟩
        rcases Seg.exists_cut_outside f hx hout with ⟨t, ht, hxt, hval⟩
        exact ⟨t, List.mem_flatMap.2 ⟨s, hs, ht⟩, hxt, hval⟩

theorem segs_modify_of_free (f : β → Option β) {lo hi : Nat} {m : RangeMap β} (hlo : lo ≤ hi)
    (hfree : m.Free lo hi) : (m.modify f lo hi).segs = m.segs := by
  have hall : ∀ s ∈ m.segs, Seg.cut f lo hi s = [s] :=
    fun s hs => Seg.cut_of_apart f (m.nonempty s hs) hlo (hfree s hs)
  calc m.segs.flatMap (Seg.cut f lo hi) = m.segs.flatMap fun s => [s] :=
        List.flatMap_congr hall
    _ = m.segs := by simp

/-- A change of exactly the first range changes its value. -/
theorem segs_modify_head {f : β → Option β} {m : RangeMap β} {s : Seg β} {rest : List (Seg β)}
    {v : β} (hsegs : m.segs = s :: rest) (hv : f s.val = some v) :
    (m.modify f s.lo s.hi).segs = ⟨s.lo, s.hi, v⟩ :: rest := by
  have hs : s.lo < s.hi := m.nonempty s (by simp [hsegs])
  have hdis := m.disjoint
  rw [hsegs, List.pairwise_cons] at hdis
  have hrest : ∀ t ∈ rest, Seg.cut f s.lo s.hi t = [t] := by
    intro t ht
    refine Seg.cut_of_apart f (m.nonempty t (by simp [hsegs, ht])) (Nat.le_of_lt hs) ?_
    have := hdis.1 t ht
    simp only [Seg.Apart] at *
    omega
  calc (m.modify f s.lo s.hi).segs
      = Seg.cut f s.lo s.hi s ++ rest.flatMap (Seg.cut f s.lo s.hi) := by simp [modify, hsegs]
    _ = [⟨s.lo, s.hi, v⟩] ++ rest.flatMap fun t => [t] := by
        rw [Seg.cut_self hs hv, List.flatMap_congr hrest]
    _ = ⟨s.lo, s.hi, v⟩ :: rest := by simp

/-! ## Inserting a range -/

/-- Put `v` between `lo` and `hi`, in place of what was there. -/
def insert (lo hi : Nat) (v : β) (h : lo < hi) (m : RangeMap β) : RangeMap β where
  segs := ⟨lo, hi, v⟩ :: (m.modify (fun _ => none) lo hi).segs
  nonempty := by
    intro s hs
    rcases List.mem_cons.1 hs with rfl | hs
    · exact h
    · exact (m.modify _ lo hi).nonempty s hs
  disjoint := by
    refine List.pairwise_cons.2 ⟨?_, (m.modify _ lo hi).disjoint⟩
    intro t ht
    rcases List.mem_flatMap.1 ht with ⟨s, _, hcut⟩
    rcases Seg.mem_cut hcut with ⟨_, hne, _, ⟨_, hout⟩ | ⟨hnone, _⟩⟩
    · -- neither end of the piece lies inside
      have hfirst := hout t.lo ⟨le_rfl, hne⟩
      have hlast := hout (max t.lo lo)
      simp only [Seg.Apart, Seg.Has] at *
      omega
    · exact absurd hnone (by simp)

theorem lookup_insert {lo hi : Nat} (v : β) (h : lo < hi) (m : RangeMap β) (x : Nat) :
    (m.insert lo hi v h).lookup x = if lo ≤ x ∧ x < hi then some v else m.lookup x := by
  have hmodify := lookup_modify (fun _ => none) lo hi m x
  by_cases hx : lo ≤ x ∧ x < hi
  · rw [if_pos hx]
    exact lookup_eq_some_iff.2 ⟨⟨lo, hi, v⟩, List.mem_cons_self, hx, rfl⟩
  · rw [if_neg hx] at hmodify ⊢
    have hskip : ¬ Seg.Has ⟨lo, hi, v⟩ x := hx
    simpa [lookup, insert, hskip] using hmodify

theorem segs_insert_of_free {lo hi : Nat} (v : β) (h : lo < hi) {m : RangeMap β}
    (hfree : m.Free lo hi) : (m.insert lo hi v h).segs = ⟨lo, hi, v⟩ :: m.segs := by
  simp [insert, segs_modify_of_free _ (Nat.le_of_lt h) hfree]

/-- A range apart from the new one stays. -/
theorem mem_segs_insert_of_apart {lo hi : Nat} (v : β) (h : lo < hi) {m : RangeMap β} {s : Seg β}
    (hs : s ∈ m.segs) (hapart : s.Apart lo hi) : s ∈ (m.insert lo hi v h).segs := by
  refine List.mem_cons_of_mem _ (List.mem_flatMap.2 ⟨s, hs, ?_⟩)
  rw [Seg.cut_of_apart _ (m.nonempty s hs) (Nat.le_of_lt h) hapart]
  exact List.mem_singleton_self s

/-- Every other range is a piece of an old one, and is the old one if that is apart. -/
theorem exists_of_mem_segs_insert {lo hi : Nat} {v : β} (h : lo < hi) {m : RangeMap β} {t : Seg β}
    (ht : t ∈ (m.insert lo hi v h).segs) :
    t = ⟨lo, hi, v⟩ ∨ ∃ s ∈ m.segs, t.val = s.val ∧ (s.Apart lo hi → t = s) := by
  rcases List.mem_cons.1 ht with rfl | ht
  · exact .inl rfl
  · right
    rcases List.mem_flatMap.1 ht with ⟨s, hs, hcut⟩
    refine ⟨s, hs, ?_, fun hapart => ?_⟩
    · rcases Seg.mem_cut hcut with ⟨_, _, _, ⟨hval, _⟩ | ⟨hnone, _⟩⟩
      · exact hval
      · cases hnone
    · rw [Seg.cut_of_apart _ (m.nonempty s hs) (Nat.le_of_lt h) hapart] at hcut
      exact List.mem_singleton.1 hcut

/-! ## The ends of the ranges -/

/-- Every range of a modified map ends where one of the old map does, or where the change does. -/
theorem ends_modify {P : Nat → Prop} {f : β → Option β} {lo hi : Nat} {m : RangeMap β}
    (hm : ∀ s ∈ m.segs, P s.lo ∧ P s.hi) (hlo : P lo) (hhi : P hi) :
    ∀ s ∈ (m.modify f lo hi).segs, P s.lo ∧ P s.hi := by
  have hmin : ∀ {a b}, P a → P b → P (min a b) := by
    intro a b ha hb
    rcases min_choice a b with h | h <;> rw [h] <;> assumption
  have hmax : ∀ {a b}, P a → P b → P (max a b) := by
    intro a b ha hb
    rcases max_choice a b with h | h <;> rw [h] <;> assumption
  intro t ht
  rcases List.mem_flatMap.1 ht with ⟨s, hs, hcut⟩
  rcases hm s hs with ⟨hsl, hsh⟩
  -- each end of a piece is the smaller or the larger of two such numbers
  simp only [Seg.cut, List.mem_append] at hcut
  rcases hcut with hbefore | hinside | hafter
  · split at hbefore
    · obtain rfl := List.mem_singleton.1 hbefore
      exact ⟨hsl, hmin hsh hlo⟩
    · simp at hbefore
  · split at hinside
    · rcases List.mem_map.1 hinside with ⟨v, _, rfl⟩
      exact ⟨hmax hsl hlo, hmin hsh hhi⟩
    · simp at hinside
  · split at hafter
    · obtain rfl := List.mem_singleton.1 hafter
      exact ⟨hmax hsl (hmax hlo hhi), hsh⟩
    · simp at hafter

theorem ends_insert {P : Nat → Prop} {lo hi : Nat} {v : β} {h : lo < hi} {m : RangeMap β}
    (hm : ∀ s ∈ m.segs, P s.lo ∧ P s.hi) (hlo : P lo) (hhi : P hi) :
    ∀ s ∈ (m.insert lo hi v h).segs, P s.lo ∧ P s.hi := by
  intro s hs
  rcases List.mem_cons.1 hs with rfl | hs
  · exact ⟨hlo, hhi⟩
  · exact ends_modify hm hlo hhi s hs

end RangeMap

end Lib
end CkptRestart
