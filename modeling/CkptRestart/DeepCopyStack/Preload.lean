import CkptRestart.DeepCopyStack.Relocated

/-!
# Preload — the variable that is renamed

The loop that makes `LD_PRELOAD` of `UH_PRELOAD` looks for the name anywhere in a string, and writes the
two bytes at the start of the first string that has it.

* `copy_envAt`: the strings of the environment on the new stack.
* `renamesPreload_iff`: they are the original ones with the variable renamed exactly when no string in
  front of the variable has its name in it.
-/

namespace CkptRestart

open Lib ByteMem

/-! ## Environments -/

/-- The environment at an address has these strings. -/
def EnvAt (m : ByteMem) : Nat → List (List UInt8) → Prop
  | addr, [] => load 8 m addr = 0
  | addr, s :: ss =>
      (load 8 m addr ≠ 0 ∧ m.StringAt (load 8 m addr) s) ∧ EnvAt m (addr + 8) ss

theorem EnvAt.unique {m : ByteMem} {addr : Nat} {ss ts : List (List UInt8)} (hs : EnvAt m addr ss)
    (ht : EnvAt m addr ts) : ss = ts := by
  induction ss generalizing addr ts with
  | nil =>
      cases ts with
      | nil => rfl
      | cons t ts => exact absurd hs ht.1.1
  | cons s ss ih =>
      cases ts with
      | nil => exact absurd ht hs.1.1
      | cons t ts => rw [hs.1.2.unique ht.1.2, ih hs.2 ht.2]

theorem envAt_of_wordsAt {m : ByteMem} {addr : Nat} {ps : List Nat} {f : Nat → Nat}
    {str : Nat → List UInt8} (hwords : m.WordsAt addr (ps.map f ++ [0])) (hne : ∀ p ∈ ps, f p ≠ 0)
    (hstr : ∀ p ∈ ps, m.StringAt (f p) (str p)) : EnvAt m addr (ps.map str) := by
  induction ps generalizing addr with
  | nil => exact hwords.1
  | cons p ps ih =>
      have hword : load 8 m addr = f p := hwords.1
      refine ⟨?_, ih hwords.2 (fun q hq => hne q (List.mem_cons_of_mem _ hq))
        fun q hq => hstr q (List.mem_cons_of_mem _ hq)⟩
      rw [hword]
      exact ⟨hne p List.mem_cons_self, hstr p List.mem_cons_self⟩

def ldPreload : List UInt8 := cstr ['L', 'D', '_', 'P', 'R', 'E', 'L', 'O', 'A', 'D']

/-- A definition of `UH_PRELOAD` has become one of `LD_PRELOAD` with the same value, and the rest is as
it was. -/
def RenamesPreload (orig new : List (List UInt8)) : Prop :=
  ∃ pre value post,
    orig = pre ++ (uhPreload ++ [chr '='] ++ value) :: post ∧
      new = pre ++ (ldPreload ++ [chr '='] ++ value) :: post

/-- In front of the variable, no string has its name in it. -/
def FoundFirst (orig : List (List UInt8)) : Prop :=
  ∃ pre value post,
    orig = pre ++ (uhPreload ++ [chr '='] ++ value) :: post ∧
      ∀ s ∈ pre, strstr s uhPreload = false

/-- `deepCopyStack` leaves an environment on the new stack that is the original one with the variable
renamed. -/
def PreloadRenamed (fuel : Nat) (v : StackVectors) (str : Nat → List UInt8)
    (newStack stack len stackEnd : Nat) (info : DynObjInfo) (m : ByteMem) : Prop :=
  ∃ m' new,
    deepCopyStack fuel (v.envAddr (stackEnd + 16)) newStack stack len
        (relocate newStack stack stackEnd) stackEnd (some info) m =
      .ok (relocate newStack stack (stackEnd + 8), m') ∧
    EnvAt m' (relocate newStack stack (v.envAddr (stackEnd + 16))) new ∧
    RenamesPreload (v.envs.map str) new

/-! ## Lists that differ in one place -/

section Lists

variable {α : Type} {a b pre post : List α} {s s' u u' : α}

/-- Two lists that differ in one place only differ there. -/
theorem eq_of_differ (h : a ++ s :: b = pre ++ u :: post) (h' : a ++ s' :: b = pre ++ u' :: post)
    (hne : u ≠ u') : a = pre := by
  induction a generalizing pre with
  | nil =>
      cases pre with
      | nil => rfl
      | cons x pre =>
          -- the common rest would have both elements at one place
          have htail : b = pre ++ u :: post := (List.cons.inj h).2
          have htail' : b = pre ++ u' :: post := (List.cons.inj h').2
          have hcons := List.append_cancel_left (htail.symm.trans htail')
          exact absurd (List.cons.inj hcons).1 hne
  | cons x a ih =>
      cases pre with
      | nil => exact absurd ((List.cons.inj h).1.symm.trans (List.cons.inj h').1) hne
      | cons y pre =>
          have hhead : x = y := (List.cons.inj h).1
          rw [hhead, ih (List.cons.inj h).2 (List.cons.inj h').2]

/-- There is one first element with a property. -/
theorem eq_of_first {P : α → Bool} (h : a ++ s :: b = pre ++ u :: post) (ha : ∀ x ∈ a, P x = false)
    (hs : P s = true) (hpre : ∀ x ∈ pre, P x = false) (hu : P u = true) : a = pre := by
  induction a generalizing pre with
  | nil =>
      cases pre with
      | nil => rfl
      | cons x pre =>
          have hhead : s = x := (List.cons.inj h).1
          have hnot := hpre x List.mem_cons_self
          rw [← hhead, hs] at hnot
          exact absurd hnot (by decide)
  | cons x a ih =>
      cases pre with
      | nil =>
          have hhead : x = u := (List.cons.inj h).1
          have hnot := ha x List.mem_cons_self
          rw [hhead, hu] at hnot
          exact absurd hnot (by decide)
      | cons y pre =>
          have hhead : x = y := (List.cons.inj h).1
          rw [hhead, ih (List.cons.inj h).2 (fun z hz => ha z (List.mem_cons_of_mem _ hz))
            fun z hz => hpre z (List.mem_cons_of_mem _ hz)]

end Lists

/-- With the two bytes at the start of the first string that has the name in it, the environment is
renamed exactly when this string is the variable. -/
theorem renamesPreload_first {a b : List (List UInt8)} {s : List UInt8}
    (ha : ∀ x ∈ a, strstr x uhPreload = false) (hs : strstr s uhPreload = true) :
    RenamesPreload (a ++ s :: b) (a ++ (cstr ['L', 'D'] ++ s.drop 2) :: b) ↔
      FoundFirst (a ++ s :: b) := by
  have hne : ∀ value : List UInt8,
      uhPreload ++ [chr '='] ++ value ≠ ldPreload ++ [chr '='] ++ value := by
    intro value heq
    exact absurd (List.append_cancel_right heq) (by decide)
  constructor
  · rintro ⟨pre, value, post, horig, hnew⟩
    have hplace := eq_of_differ horig hnew (hne value)
    exact ⟨pre, value, post, horig, hplace ▸ ha⟩
  · rintro ⟨pre, value, post, horig, hpre⟩
    have hin : strstr (uhPreload ++ [chr '='] ++ value) uhPreload = true := by
      refine decide_eq_true (List.IsPrefix.isInfix ?_)
      rw [List.append_assoc]
      exact List.prefix_append _ _
    have hplace := eq_of_first horig ha hs hpre hin
    subst hplace
    obtain ⟨rfl, rfl⟩ := List.cons.inj (List.append_cancel_left horig)
    exact ⟨a, value, b, rfl, rfl⟩

/-! ## The environment of the copy -/

section Copy

variable {v : StackVectors} {m : ByteMem} {str : Nat → List UInt8}
  {newStack stack len stackEnd fuel : Nat}

/-- The string at which the search ended has the two bytes at its start. -/
theorem RelocatedStack.string_found {m' : ByteMem} {target q : Nat} {info : DynObjInfo}
    (hr : RelocatedStack v m m' newStack stack len stackEnd target q info)
    (h : v.OnStack m stack len stackEnd str)
    (hq : v.envs.find? (fun p => strstr (str p) uhPreload) = some q) :
    m'.StringAt (relocate newStack stack q) (cstr ['L', 'D'] ++ (str q).drop 2) := by
  have hqmem := List.mem_append_right v.args (List.mem_of_find?_eq_some hq)
  have hin : strstr (str q) uhPreload = true := by simpa using List.find?_some hq
  have htwo := two_le_length_of_strstr hin
  have habove := h.above q hqmem
  have hstart := h.start
  have hargv : stackEnd + 16 ≤ v.endAddr (stackEnd + 16) := Nat.le_add_right _ _
  refine stringAt_append (by decide) hr.preload ?_
  refine ((h.strings q hqmem).drop htwo).congr fun i hi => ?_
  rw [List.length_drop] at hi
  have hplace : relocate newStack stack q + (cstr ['L', 'D']).length + i =
      relocate newStack stack (q + 2 + i) := by
    rw [Nat.add_assoc q, relocate_add (by omega), Nat.add_assoc]
    rfl
  rw [hplace]
  exact hr.kept _ (by omega) (by omega) (Or.inr (by omega)) (Or.inr (by omega))

/-- Every other string is as it was. -/
theorem RelocatedStack.string_other {m' : ByteMem} {target p q : Nat} {info : DynObjInfo}
    (hr : RelocatedStack v m m' newStack stack len stackEnd target q info)
    (h : v.OnStack m stack len stackEnd str) (hp : p ∈ v.envs)
    (hq : v.envs.find? (fun p => strstr (str p) uhPreload) = some q) (hne : p ≠ q) :
    m'.StringAt (relocate newStack stack p) (str p) := by
  have hpmem := List.mem_append_right v.args hp
  have hqmem := List.mem_append_right v.args (List.mem_of_find?_eq_some hq)
  have hin : strstr (str q) uhPreload = true := by simpa using List.find?_some hq
  have htwo := two_le_length_of_strstr hin
  have habove := h.above p hpmem
  have hstart := h.start
  have hargv : stackEnd + 16 ≤ v.endAddr (stackEnd + 16) := Nat.le_add_right _ _
  have hapart := h.apart.forall hpmem hqmem hne
  unfold Apart at hapart
  refine (h.strings p hpmem).congr fun i hi => ?_
  rw [← relocate_add (by omega)]
  exact hr.kept _ (by omega) (by omega) (Or.inr (by omega)) (by omega)

/-- What `ld.so` reads at its environment pointer. -/
theorem RelocatedStack.envAt {m' : ByteMem} {target q : Nat} {info : DynObjInfo}
    (hr : RelocatedStack v m m' newStack stack len stackEnd target q info)
    (h : v.OnStack m stack len stackEnd str) (hnew : NewRegion newStack stack len)
    (hq : v.envs.find? (fun p => strstr (str p) uhPreload) = some q) :
    EnvAt m' (relocate newStack stack (v.envAddr (stackEnd + 16)))
      (v.envs.map fun p => if p = q then cstr ['L', 'D'] ++ (str p).drop 2 else str p) := by
  have hstart := h.start
  have henough := h.enough
  have hwords := (StackVectors.wordsAt_parts hr.words).2.1
  have hplace : relocate newStack stack (v.envAddr (stackEnd + 16)) =
      (v.relocated newStack stack target info).envAddr
        (relocate newStack stack (stackEnd + 16)) := by
    rw [StackVectors.envAddr, StackVectors.envAddr, relocate_add (by omega)]
    simp only [StackVectors.relocated, List.length_cons, List.length_map, List.length_tail,
      Nat.sub_add_cancel (Nat.le_of_succ_le henough)]
  rw [← hplace] at hwords
  apply envAt_of_wordsAt hwords
  · intro p _
    exact Nat.ne_of_gt (Nat.lt_of_lt_of_le hnew.pos (Nat.le_add_right _ _))
  · intro p hp
    by_cases heq : p = q
    · rw [if_pos heq, heq]
      exact hr.string_found h hq
    · rw [if_neg heq]
      exact hr.string_other h hp hq heq

/-- The strings of the new environment, with those in front of the one that was found. -/
theorem copy_envAt (h : v.OnStack m stack len stackEnd str) (hnew : NewRegion newStack stack len)
    {info : DynObjInfo} (hinfo : info.Fits) (hfuel : len ≤ fuel)
    (htarget : ∃ p ∈ v.envs, IsVar targetLd (str p))
    (hpreload : ∃ p ∈ v.envs, IsVar uhPreload (str p)) :
    ∃ m' a s b,
      deepCopyStack fuel (v.envAddr (stackEnd + 16)) newStack stack len
          (relocate newStack stack stackEnd) stackEnd (some info) m =
        .ok (relocate newStack stack (stackEnd + 8), m') ∧
      v.envs.map str = a ++ s :: b ∧ (∀ x ∈ a, strstr x uhPreload = false) ∧
      strstr s uhPreload = true ∧
      EnvAt m' (relocate newStack stack (v.envAddr (stackEnd + 16)))
        (a ++ (cstr ['L', 'D'] ++ s.drop 2) :: b) := by
  rcases find?_of_exists htarget with ⟨t, ht⟩
  rcases find?_of_exists hpreload with ⟨u, hu⟩
  rcases found_of_isVar hpreload with ⟨q, hq⟩
  rcases patchStack_ok h hnew hinfo hfuel ht hq with ⟨m', hrun, hm'⟩
  rcases List.find?_eq_some_iff_append.1 hq with ⟨hin, a, b, henvs, ha⟩
  -- no other pointer of the vector is that of the string
  have hnodup : (a ++ q :: b).Nodup := by
    rw [← henvs]
    refine (List.pairwise_append.1 h.apart).2.1.imp fun {p p'} hpp heq => ?_
    unfold Apart at hpp
    rw [heq] at hpp
    omega
  have hsplit := List.nodup_append.1 hnodup
  have hb : q ∉ b := (List.nodup_cons.1 hsplit.2.1).1
  have ha' : q ∉ a := fun hmem => hsplit.2.2 q hmem q List.mem_cons_self rfl
  have henv := hm'.envAt h hnew hq
  refine ⟨m', a.map str, str q, b.map str, ?_, ?_, ?_, hin, ?_⟩
  · rw [deepCopyStack_eq_patchStack h hnew info hfuel ht hu, hrun]
  · rw [henvs, List.map_append, List.map_cons]
  · intro x hx
    rcases List.mem_map.1 hx with ⟨p, hp, rfl⟩
    simpa using ha p hp
  · have hkept : ∀ l : List Nat, q ∉ l →
        l.map (fun p => if p = q then cstr ['L', 'D'] ++ (str p).drop 2 else str p) = l.map str := by
      intro l hl
      apply List.map_congr_left
      intro p hp
      apply if_neg
      rintro rfl
      exact hl hp
    rw [henvs, List.map_append, List.map_cons, if_pos rfl, hkept a ha', hkept b hb] at henv
    exact henv

theorem renamesPreload_iff (h : v.OnStack m stack len stackEnd str)
    (hnew : NewRegion newStack stack len) {info : DynObjInfo} (hinfo : info.Fits)
    (hfuel : len ≤ fuel) (htarget : ∃ p ∈ v.envs, IsVar targetLd (str p))
    (hpreload : ∃ p ∈ v.envs, IsVar uhPreload (str p)) :
    PreloadRenamed fuel v str newStack stack len stackEnd info m ↔
      FoundFirst (v.envs.map str) := by
  rcases copy_envAt h hnew hinfo hfuel htarget hpreload with ⟨m', a, s, b, hrun, henvs, ha, hs, henv⟩
  rw [PreloadRenamed, henvs, ← renamesPreload_first ha hs]
  constructor
  · rintro ⟨m₂, new, hrun₂, henv₂, hrenames⟩
    obtain ⟨-, rfl⟩ := Prod.mk.inj (Exec.ok.inj (hrun.symm.trans hrun₂))
    rwa [henv.unique henv₂]
  · intro hrenames
    exact ⟨m', _, hrun, henv, hrenames⟩

end Copy

theorem renamesPreload_smallEnvs :
    PreloadRenamed 0x100 (smallVectors smallEnvs) (smallStr smallEnvs) 0x8000 0x1000 0x100 0x1000
        ⟨0, 3, 2, 1, 0, 0⟩ (smallMemory smallEnvs) ↔
      FoundFirst ((smallVectors smallEnvs).envs.map (smallStr smallEnvs)) :=
  renamesPreload_iff onStack_smallEnvs ⟨by decide, by decide, by decide⟩ (by decide)
    (Nat.le_refl _) (by decide +kernel) (by decide +kernel)

/-- Another variable, whose name ends in that of the one that is to be renamed. -/
def myPreload : List UInt8 := cstr ['M', 'Y', '_'] ++ uhPreload ++ cstr ['=', '1']

theorem onStack_myPreload : (smallVectors (myPreload :: smallEnvs)).OnStack
    (smallMemory (myPreload :: smallEnvs)) 0x1000 0x100 0x1000
    (smallStr (myPreload :: smallEnvs)) := by
  constructor <;> decide +kernel

theorem not_foundFirst_myPreload (envs : List (List UInt8)) : ¬ FoundFirst (myPreload :: envs) := by
  rintro ⟨pre, value, post, horig, hpre⟩
  cases pre with
  | nil => exact absurd (List.cons.inj (List.cons.inj horig).1).1 (by decide)
  | cons s pre =>
      have hnot := hpre s List.mem_cons_self
      rw [← (List.cons.inj horig).1] at hnot
      exact absurd hnot (by decide)

theorem not_renamesPreload_myPreload : ¬ PreloadRenamed 0x100 (smallVectors (myPreload :: smallEnvs))
    (smallStr (myPreload :: smallEnvs)) 0x8000 0x1000 0x100 0x1000 ⟨0, 3, 2, 1, 0, 0⟩
    (smallMemory (myPreload :: smallEnvs)) := by
  rintro ⟨m₂, new, hrun₂, henv₂, hrenames⟩
  rcases @copy_envAt _ _ _ 0x8000 _ _ _ 0x100 onStack_myPreload ⟨by decide, by decide, by decide⟩
    ⟨0, 3, 2, 1, 0, 0⟩ (by decide) (Nat.le_refl _) (by decide +kernel) (by decide +kernel) with
    ⟨m', a, s, b, hrun, henvs, ha, hs, henv⟩
  obtain ⟨-, rfl⟩ := Prod.mk.inj (Exec.ok.inj (hrun.symm.trans hrun₂))
  have hlist : (smallVectors (myPreload :: smallEnvs)).envs.map (smallStr (myPreload :: smallEnvs)) =
      myPreload :: smallEnvs := by decide +kernel
  rw [← henv.unique henv₂, henvs, renamesPreload_first ha hs, ← henvs, hlist] at hrenames
  exact not_foundFirst_myPreload smallEnvs hrenames

end CkptRestart
