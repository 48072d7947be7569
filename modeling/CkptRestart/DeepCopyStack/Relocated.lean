import CkptRestart.DeepCopyStack

/-!
# Relocated — what is on the new stack

The stack that the kernel leaves has `argc`, the argument vector, the environment and the aux vector one
behind the other, and their strings above.

* `StackVectors.words`: the three vectors as one list of words.  Each loop of `patchStack` replaces a
  part of the list by one of the same length, and nothing else in memory.
* `deepCopyStack_relocated`: the vectors of the copy, and every byte around them.
-/

namespace CkptRestart

open Lib ByteMem

/-! ## The vectors -/

structure StackVectors where
  args : List Nat
  envs : List Nat
  auxv : List (Nat × Nat)
  /-- The value in the entry that ends the aux vector. -/
  last : Nat

namespace StackVectors

def words (v : StackVectors) : List Nat :=
  v.args ++ 0 :: (v.envs ++ 0 :: (auxWords v.auxv ++ [atNull, v.last]))

def envAddr (v : StackVectors) (argv : Nat) : Nat := argv + 8 * (v.args.length + 1)

def auxAddr (v : StackVectors) (argv : Nat) : Nat := v.envAddr argv + 8 * (v.envs.length + 1)

/-- Where the vectors end. -/
def endAddr (v : StackVectors) (argv : Nat) : Nat := argv + 8 * v.words.length

theorem length_words (v : StackVectors) :
    v.words.length = v.args.length + 1 + (v.envs.length + 1) + 2 * v.auxv.length + 2 := by
  simp only [words, List.length_append, List.length_cons, List.length_nil, length_auxWords]
  omega

end StackVectors

/-- Two strings do not overlap. -/
def Apart (str : Nat → List UInt8) (p q : Nat) : Prop :=
  p + (str p).length < q ∨ q + (str q).length < p

instance (str : Nat → List UInt8) (p q : Nat) : Decidable (Apart str p q) :=
  inferInstanceAs (Decidable (_ ∨ _))

instance (str : Nat → List UInt8) : Std.Symm (Apart str) where
  symm _ _ h := h.symm

/-- A stack as the kernel has set it up: `str` are the strings of the two vectors, and `stackEnd` is the
word below `argc`. -/
structure StackVectors.OnStack (v : StackVectors) (m : ByteMem) (stack len stackEnd : Nat)
    (str : Nat → List UInt8) : Prop where
  pos : 0 < stack
  bounded : stack + len ≤ wordSize
  start : stack ≤ stackEnd
  argc : toInt32 (load 4 m (stackEnd + 8)) = v.args.length
  -- `main` has checked this
  enough : 2 ≤ v.args.length
  words : m.WordsAt (stackEnd + 16) v.words
  -- the entry with the value `last` is the first that ends the vector
  types : ∀ e ∈ v.auxv, e.1 ≠ atNull
  strings : ∀ p ∈ v.args ++ v.envs, m.StringAt p (str p)
  above : ∀ p ∈ v.args ++ v.envs,
    v.endAddr (stackEnd + 16) ≤ p ∧ p + (str p).length < stack + len
  apart : (v.args ++ v.envs).Pairwise (Apart str)

/-- A region for a copy of the original one. -/
structure NewRegion (newStack stack len : Nat) : Prop where
  pos : 0 < newStack
  bounded : newStack + len ≤ wordSize
  apart : newStack + len ≤ stack ∨ stack + len ≤ newStack

/-- The place in the new region of a place in the original one. -/
def relocate (newStack stack p : Nat) : Nat := newStack + (p - stack)

/-- What goes into the aux vector fits the type it has. -/
def DynObjInfo.Fits (info : DynObjInfo) : Prop :=
  info.phnum < wordSize ∧ info.phdr < wordSize ∧ info.entryPoint < wordSize

instance (info : DynObjInfo) : Decidable info.Fits := inferInstanceAs (Decidable (_ ∧ _))

def DynObjInfo.patchEntry (info : DynObjInfo) : Nat × Nat → Nat × Nat :=
  CkptRestart.patchEntry info.phnum info.phdr info.entryPoint

/-- The vectors that the copy is to have. -/
def StackVectors.relocated (v : StackVectors) (newStack stack target : Nat) (info : DynObjInfo) :
    StackVectors where
  args := relocate newStack stack target :: v.args.tail.map (relocate newStack stack)
  envs := v.envs.map (relocate newStack stack)
  auxv := v.auxv.map info.patchEntry
  last := v.last

/-- The memory after the copy; `target` is what `argv[0]` is to point to, and `renamed` is the string
that gets the two bytes. -/
structure RelocatedStack (v : StackVectors) (m m' : ByteMem)
    (newStack stack len stackEnd target renamed : Nat) (info : DynObjInfo) : Prop where
  words : m'.WordsAt (relocate newStack stack (stackEnd + 16))
    (v.relocated newStack stack target info).words
  preload : m'.bytes (relocate newStack stack renamed) 2 = cstr ['L', 'D']
  -- `argc` and the word below it, and all strings
  kept : ∀ x, stackEnd ≤ x → x < stack + len →
    (x < stackEnd + 16 ∨ v.endAddr (stackEnd + 16) ≤ x) → (x < renamed ∨ renamed + 2 ≤ x) →
    m' (relocate newStack stack x) = m x
  cleared : ∀ x, newStack ≤ x → x < relocate newStack stack stackEnd → m' x = 0
  outside : ∀ x, (x < newStack ∨ newStack + len ≤ x) → m' x = m x

/-! ## A small stack -/

/-- Where strings are that lie one behind the other. -/
def placed : Nat → List (List UInt8) → List Nat
  | _, [] => []
  | p, s :: ss => p :: placed (p + s.length + 1) ss

section SmallStack

variable (envs : List (List UInt8))

/-- Two arguments and an environment. -/
def smallStrings : List (List UInt8) := [cstr ['k'], cstr ['a']] ++ envs

def smallVectors : StackVectors :=
  let ptrs := placed (0x1010 + 8 * (8 + envs.length)) (smallStrings envs)
  ⟨ptrs.take 2, ptrs.drop 2, [(atPhnum, 9)], 0⟩

def smallMemory : ByteMem := fun x =>
  -- the word below `argc`, `argc`, the vectors and the strings
  (putWord 8 0 ++ putWord 8 2 ++ (smallVectors envs).words.flatMap (putWord 8) ++
    (smallStrings envs).flatMap (· ++ [0])).getD (x - 0x1000) 0

def smallStr (p : Nat) : List UInt8 := ((smallMemory envs).readString 32 p).getD []

end SmallStack

def smallEnvs : List (List UInt8) := [uhPreload ++ cstr ['=', 'w'], targetLd ++ cstr ['=', 'l']]

theorem onStack_smallEnvs : (smallVectors smallEnvs).OnStack (smallMemory smallEnvs) 0x1000 0x100 0x1000
    (smallStr smallEnvs) := by
  constructor <;> decide +kernel

/-! ## The places in both regions -/

section Places

variable {v : StackVectors} {m : ByteMem} {str : Nat → List UInt8}
  {newStack stack len stackEnd fuel : Nat}

theorem StackVectors.OnStack.endAddr_le (h : v.OnStack m stack len stackEnd str) :
    v.endAddr (stackEnd + 16) < stack + len := by
  -- the string of the first argument is behind the vectors
  have hne : v.args ≠ [] := by
    intro hnil
    simpa [hnil] using h.enough
  rcases List.exists_mem_of_ne_nil _ hne with ⟨p, hp⟩
  have habove := h.above p (List.mem_append_left _ hp)
  omega

/-- The vectors have fewer words than the region has bytes. -/
theorem StackVectors.OnStack.lengths (h : v.OnStack m stack len stackEnd str) :
    v.args.length < len ∧ v.envs.length < len ∧ v.auxv.length < len := by
  have hend := h.endAddr_le
  have hstart := h.start
  rw [StackVectors.endAddr, v.length_words] at hend
  omega

theorem StackVectors.OnStack.ne_zero (h : v.OnStack m stack len stackEnd str) {p : Nat}
    (hp : p ∈ v.args ++ v.envs) : p ≠ 0 := by
  have habove := (h.above p hp).1
  rw [StackVectors.endAddr] at habove
  omega

theorem relocate_add {x n : Nat} (hx : stack ≤ x) :
    relocate newStack stack (x + n) = relocate newStack stack x + n := by
  unfold relocate
  omega

theorem NewRegion.relocate_lt (hnew : NewRegion newStack stack len) {x : Nat} (hle : stack ≤ x)
    (hlt : x < stack + len) :
    newStack ≤ relocate newStack stack x ∧ relocate newStack stack x < newStack + len ∧
      relocate newStack stack x < wordSize := by
  have hbounded := hnew.bounded
  unfold relocate
  omega

/-- A pointer keeps its distance from any vector that starts below it in the region. -/
theorem NewRegion.shiftPointer_eq (hnew : NewRegion newStack stack len) {o p : Nat}
    (ho : stack ≤ o) (hop : o ≤ p) (hp : p < stack + len) :
    shiftPointer o (relocate newStack stack o) p = relocate newStack stack p := by
  have hsum : relocate newStack stack o + (p - o) = relocate newStack stack p := by
    rw [← relocate_add ho, Nat.add_sub_cancel' hop]
  rw [CkptRestart.shiftPointer_eq hop (hsum ▸ (hnew.relocate_lt (ho.trans hop) hp).2.2), hsum]

theorem NewRegion.vector_apart (hnew : NewRegion newStack stack len) {o n : Nat} (ho : stack ≤ o)
    (hn : o + 8 * n ≤ stack + len) :
    o + 8 * n ≤ relocate newStack stack o ∨ relocate newStack stack o + 8 * n ≤ o := by
  have hapart := hnew.apart
  unfold relocate
  omega

/-- The places behind the end of a stack, where no sum leaves 64 bits. -/
theorem getAddr_eq {e : Nat} {argc : Nat} (hlt : e + 16 + 8 * (argc + 1) < wordSize) :
    getArgcAddr e = e + 8 ∧ getArgvAddr e = e + 16 ∧
      getEnvAddr (e + 16) argc = e + 16 + 8 * (argc + 1) := by
  have hcast : ((e + 16 : Nat) : Int) + 8 * ((argc : Int) + 1) =
      ((e + 16 + 8 * (argc + 1) : Nat) : Int) := by omega
  refine ⟨wrap_of_lt (by omega), wrap_of_lt (by omega), ?_⟩
  rw [getEnvAddr, hcast, toUnsigned_natCast hlt]

theorem copy_relocate (m : ByteMem) {x : Nat} (hle : stack ≤ x) (hlt : x < stack + len) :
    m.copy newStack stack len (relocate newStack stack x) = m x := by
  have hi : x - stack < len := by omega
  rw [relocate, copy_inside m newStack stack hi, Nat.add_sub_cancel' hle]

end Places

/-! ## Parts of the vectors -/

namespace StackVectors

variable {v : StackVectors} {m m₁ m₂ : ByteMem} {a : Nat}

/-- Each vector is at its place, with the null word that ends it. -/
theorem wordsAt_parts (h : m.WordsAt a v.words) :
    m.WordsAt a (v.args ++ [0]) ∧ m.WordsAt (v.envAddr a) (v.envs ++ [0]) ∧
      m.WordsAt (v.auxAddr a) (auxWords v.auxv ++ [atNull]) := by
  have hsplit : v.words =
      (v.args ++ [0]) ++ ((v.envs ++ [0]) ++ ((auxWords v.auxv ++ [atNull]) ++ [v.last])) := by
    simp [words]
  rw [hsplit] at h
  rcases wordsAt_append.1 h with ⟨hargs, hrest⟩
  rcases wordsAt_append.1 hrest with ⟨henvs, hauxv⟩
  have hauxv' := (wordsAt_append.1 hauxv).1
  simp only [List.length_append, List.length_singleton] at henvs hauxv'
  exact ⟨hargs, henvs, hauxv'⟩

theorem rewritten_args (h : Rewritten m m₁ a v.words) {args : List Nat}
    (h' : Rewritten m₁ m₂ a args) (hlen : args.length = v.args.length) :
    Rewritten m m₂ a { v with args := args }.words := by
  have hsplice := @Rewritten.splice m m₁ m₂ a [] v.args args
    (0 :: (v.envs ++ 0 :: (auxWords v.auxv ++ [atNull, v.last]))) h h' hlen
  simpa [words] using hsplice

theorem rewritten_head (h : Rewritten m m₁ a v.words) {p q : Nat} {rest : List Nat}
    (hargs : v.args = p :: rest) (h' : Rewritten m₁ m₂ a [q]) :
    Rewritten m m₂ a { v with args := q :: rest }.words := by
  have hsplice := @Rewritten.splice m m₁ m₂ a [] [p] [q]
    (rest ++ 0 :: (v.envs ++ 0 :: (auxWords v.auxv ++ [atNull, v.last])))
    (by simpa [words, hargs] using h) h' rfl
  simpa [words] using hsplice

theorem rewritten_envs (h : Rewritten m m₁ a v.words) {envs : List Nat}
    (h' : Rewritten m₁ m₂ (v.envAddr a) envs) (hlen : envs.length = v.envs.length) :
    Rewritten m m₂ a { v with envs := envs }.words := by
  have hsplice := @Rewritten.splice m m₁ m₂ a (v.args ++ [0]) v.envs envs
    (0 :: (auxWords v.auxv ++ [atNull, v.last])) (by simpa [words] using h)
    (by simpa [envAddr] using h') hlen
  simpa [words] using hsplice

theorem rewritten_auxv (h : Rewritten m m₁ a v.words) {auxv : List (Nat × Nat)}
    (h' : Rewritten m₁ m₂ (v.auxAddr a) (auxWords auxv)) (hlen : auxv.length = v.auxv.length) :
    Rewritten m m₂ a { v with auxv := auxv }.words := by
  have hplace : v.auxAddr a = a + 8 * (v.args ++ [0] ++ (v.envs ++ [0])).length := by
    simp only [auxAddr, envAddr, List.length_append, List.length_singleton]
    omega
  have hsplice := @Rewritten.splice m m₁ m₂ a (v.args ++ [0] ++ (v.envs ++ [0]))
    (auxWords v.auxv) (auxWords auxv) [atNull, v.last] (by simpa [words] using h)
    (hplace ▸ h') (by rw [length_auxWords, length_auxWords, hlen])
  simpa [words] using hsplice

end StackVectors

/-! ## The copy while it is patched -/

section Stages

variable {v : StackVectors} {m : ByteMem} {str : Nat → List UInt8}
  {newStack stack len stackEnd fuel : Nat}

/-- The copied region with these vectors in place of those that were copied. -/
structure CopyHolds (v : StackVectors) (m : ByteMem) (newStack stack len stackEnd : Nat)
    (m' : ByteMem) (w : StackVectors) : Prop where
  rewritten : Rewritten (m.copy newStack stack len) m'
    (relocate newStack stack (stackEnd + 16)) w.words
  length : w.words.length = v.words.length

variable {m' : ByteMem} {w : StackVectors}

/-- At first they are the vectors of the original stack. -/
theorem copyHolds_copy (h : v.OnStack m stack len stackEnd str) :
    CopyHolds v m newStack stack len stackEnd (m.copy newStack stack len) v := by
  have hend := h.endAddr_le
  have hstart := h.start
  rw [StackVectors.endAddr] at hend
  refine ⟨.refl (h.words.congr fun i hi => ?_), rfl⟩
  rw [← relocate_add (by omega)]
  exact copy_relocate m (by omega) (by omega)

/-- The original stack is not touched. -/
theorem CopyHolds.orig (hc : CopyHolds v m newStack stack len stackEnd m' w)
    (h : v.OnStack m stack len stackEnd str) (hnew : NewRegion newStack stack len) {x : Nat}
    (hle : stack ≤ x) (hlt : x < stack + len) : m' x = m x := by
  have hend := h.endAddr_le
  have hstart := h.start
  have hapart := hnew.apart
  rw [StackVectors.endAddr, ← hc.length] at hend
  have hplace : relocate newStack stack (stackEnd + 16) = newStack + (stackEnd + 16 - stack) := rfl
  calc m' x = m.copy newStack stack len x := hc.rewritten.frame x (by omega)
    _ = m x := copy_outside m (by omega)

/-- Around the vectors there are the bytes of the original stack. -/
theorem CopyHolds.around (hc : CopyHolds v m newStack stack len stackEnd m' w)
    (h : v.OnStack m stack len stackEnd str) {x : Nat} (hle : stack ≤ x) (hlt : x < stack + len)
    (hx : x < stackEnd + 16 ∨ v.endAddr (stackEnd + 16) ≤ x) :
    m' (relocate newStack stack x) = m x := by
  have hstart := h.start
  rw [StackVectors.endAddr, ← hc.length] at hx
  have hplace : relocate newStack stack (stackEnd + 16) = newStack + (stackEnd + 16 - stack) := rfl
  have hplace' : relocate newStack stack x = newStack + (x - stack) := rfl
  calc m' (relocate newStack stack x)
      = m.copy newStack stack len (relocate newStack stack x) :=
        hc.rewritten.frame _ (by omega)
    _ = m x := copy_relocate m hle hlt

/-- What the kernel has set up can still be read where it is. -/
theorem CopyHolds.onStack (hc : CopyHolds v m newStack stack len stackEnd m' w)
    (h : v.OnStack m stack len stackEnd str) (hnew : NewRegion newStack stack len) :
    v.OnStack m' stack len stackEnd str := by
  have hstart := h.start
  have hend := h.endAddr_le
  rw [StackVectors.endAddr] at hend
  have hargc : load 4 m' (stackEnd + 8) = load 4 m (stackEnd + 8) :=
    load_congr fun i hi => hc.orig h hnew (by omega) (by omega)
  refine { h with argc := ?_, words := ?_, strings := ?_ }
  · rw [hargc, h.argc]
  · exact h.words.congr fun i hi => hc.orig h hnew (by omega) (by omega)
  · intro p hp
    have habove := h.above p hp
    rw [StackVectors.endAddr] at habove
    exact (h.strings p hp).congr fun i hi => hc.orig h hnew (by omega) (by omega)

/-- The strings are in the new region. -/
theorem CopyHolds.string_new (hc : CopyHolds v m newStack stack len stackEnd m' w)
    (h : v.OnStack m stack len stackEnd str) {p : Nat} (hp : p ∈ v.args ++ v.envs) :
    m'.StringAt (relocate newStack stack p) (str p) := by
  have habove := h.above p hp
  have hstart := h.start
  have hend : stackEnd + 16 ≤ v.endAddr (stackEnd + 16) := Nat.le_add_right _ _
  refine (h.strings p hp).congr fun i hi => ?_
  rw [← relocate_add (by omega)]
  exact hc.around h (by omega) (by omega) (Or.inr (by omega))

/-! ## The rounds of each loop -/

theorem map_shiftPointer (h : v.OnStack m stack len stackEnd str)
    (hnew : NewRegion newStack stack len) {o : Nat} (ho : stackEnd + 16 ≤ o)
    (hend : o ≤ v.endAddr (stackEnd + 16)) {ps : List Nat} (hps : ∀ p ∈ ps, p ∈ v.args ++ v.envs) :
    ps.map (shiftPointer o (relocate newStack stack o)) = ps.map (relocate newStack stack) := by
  apply List.map_congr_left
  intro p hp
  have habove := h.above p (hps p hp)
  have hstart := h.start
  exact hnew.shiftPointer_eq (by omega) (by omega) (by omega)

theorem CopyHolds.patch_args (hc : CopyHolds v m newStack stack len stackEnd m' v)
    (h : v.OnStack m stack len stackEnd str) (hnew : NewRegion newStack stack len)
    (hfuel : len ≤ fuel) :
    ∃ m₂, patchVector (stackEnd + 16) (relocate newStack stack (stackEnd + 16)) fuel 0 m' =
        some m₂ ∧
      CopyHolds v m newStack stack len stackEnd m₂
        { v with args := v.args.map (relocate newStack stack) } := by
  have hend := h.endAddr_le
  have hstart := h.start
  have hargs := (StackVectors.wordsAt_parts (hc.onStack h hnew).words).1
  rw [StackVectors.endAddr, v.length_words] at hend
  have hapart := @NewRegion.vector_apart newStack stack len hnew (stackEnd + 16)
    (0 + v.args.length + 1) (by omega) (by omega)
  rcases @patchVector_rewritten m' (stackEnd + 16) _ v.args 0 fuel hargs
    (fun p hp => h.ne_zero (List.mem_append_left _ hp)) hapart
    (Nat.lt_of_lt_of_le h.lengths.1 hfuel) with ⟨m₂, hrun, hm₂⟩
  rw [map_shiftPointer h hnew (Nat.le_refl _) (Nat.le_add_right _ _)
    fun p hp => List.mem_append_left _ hp] at hm₂
  refine ⟨m₂, hrun, StackVectors.rewritten_args hc.rewritten hm₂ (List.length_map _), ?_⟩
  simp only [StackVectors.length_words, List.length_map]

theorem CopyHolds.patch_envs (hc : CopyHolds v m newStack stack len stackEnd m' w)
    (hargs : w.args.length = v.args.length) (henvs : w.envs = v.envs)
    (h : v.OnStack m stack len stackEnd str) (hnew : NewRegion newStack stack len)
    (hfuel : len ≤ fuel) :
    ∃ m₂, patchVector (v.envAddr (stackEnd + 16))
        (relocate newStack stack (v.envAddr (stackEnd + 16))) fuel 0 m' = some m₂ ∧
      CopyHolds v m newStack stack len stackEnd m₂
        { w with envs := v.envs.map (relocate newStack stack) } := by
  have hend := h.endAddr_le
  have hstart := h.start
  have henv : v.envAddr (stackEnd + 16) = stackEnd + 16 + 8 * (v.args.length + 1) := rfl
  have hlast : v.envAddr (stackEnd + 16) ≤ v.endAddr (stackEnd + 16) := by
    rw [henv, StackVectors.endAddr, v.length_words]
    omega
  have horig := (StackVectors.wordsAt_parts (hc.onStack h hnew).words).2.1
  rw [StackVectors.endAddr, v.length_words] at hend
  have hplace : relocate newStack stack (v.envAddr (stackEnd + 16)) =
      w.envAddr (relocate newStack stack (stackEnd + 16)) := by
    rw [StackVectors.envAddr, StackVectors.envAddr, relocate_add (by omega), hargs]
  have hapart := @NewRegion.vector_apart newStack stack len hnew (v.envAddr (stackEnd + 16))
    (0 + v.envs.length + 1) (by omega) (by omega)
  rcases @patchVector_rewritten m' (v.envAddr (stackEnd + 16)) _ v.envs 0 fuel horig
    (fun p hp => h.ne_zero (List.mem_append_right _ hp)) hapart
    (Nat.lt_of_lt_of_le h.lengths.2.1 hfuel) with ⟨m₂, hrun, hm₂⟩
  rw [map_shiftPointer h hnew (o := v.envAddr (stackEnd + 16)) (Nat.le_add_right _ _) hlast
    fun p hp => List.mem_append_right _ hp] at hm₂
  refine ⟨m₂, hrun, ?_, ?_⟩
  · apply StackVectors.rewritten_envs hc.rewritten
    · rw [← hplace]
      exact hm₂
    · rw [List.length_map, henvs]
  · rw [← hc.length]
    simp only [StackVectors.length_words, List.length_map, henvs]

/-- The first argument is replaced. -/
theorem CopyHolds.patch_head {args : List Nat} {target : Nat}
    (hc : CopyHolds v m newStack stack len stackEnd m' { v with args := args })
    (hargs : args ≠ []) (htarget : target < wordSize) :
    CopyHolds v m newStack stack len stackEnd
      (m'.storeWord (relocate newStack stack (stackEnd + 16)) target)
      { v with args := target :: args.tail } := by
  cases args with
  | nil => exact absurd rfl hargs
  | cons p rest =>
      have hhead := rewritten_storeWord m' (relocate newStack stack (stackEnd + 16)) htarget
      refine ⟨StackVectors.rewritten_head hc.rewritten rfl hhead, ?_⟩
      rw [← hc.length]
      simp only [StackVectors.length_words, List.length_cons, List.tail_cons]

/-- The string that is renamed is behind the vectors, so they can be patched after it. -/
theorem CopyHolds.patch_auxv (hc : CopyHolds v m newStack stack len stackEnd m' w)
    (hauxv : w.auxv = v.auxv) (h : v.OnStack m stack len stackEnd str) {info : DynObjInfo}
    (hinfo : info.Fits) {q : Nat} (hq : v.endAddr (stackEnd + 16) ≤ q) (data : List UInt8)
    (hfuel : len ≤ fuel) :
    ∃ m₂, patchAuxv info.phnum info.phdr info.entryPoint fuel
        (w.auxAddr (relocate newStack stack (stackEnd + 16)))
        (m'.store (relocate newStack stack q) data) = some m₂ ∧
      Rewritten (m'.store (relocate newStack stack q) data) m₂
        (relocate newStack stack (stackEnd + 16))
        { w with auxv := v.auxv.map info.patchEntry }.words := by
  have hstart := h.start
  have hend : relocate newStack stack (v.endAddr (stackEnd + 16)) =
      relocate newStack stack (stackEnd + 16) + 8 * w.words.length := by
    rw [StackVectors.endAddr, relocate_add (by omega), hc.length]
  have hle : relocate newStack stack (v.endAddr (stackEnd + 16)) ≤ relocate newStack stack q :=
    Nat.add_le_add_left (Nat.sub_le_sub_right hq stack) newStack
  have hwords := hc.rewritten.words.congr fun i hi =>
    @store_outside m' (relocate newStack stack q) data
      (relocate newStack stack (stackEnd + 16) + i) (Or.inl (by omega))
  have haux := (StackVectors.wordsAt_parts hwords).2.2
  rw [hauxv] at haux
  rcases patchAuxv_rewritten hinfo.1 hinfo.2.1 hinfo.2.2 haux h.types
    (Nat.lt_of_lt_of_le h.lengths.2.2 hfuel) with ⟨m₂, hrun, hm₂⟩
  refine ⟨m₂, hrun, StackVectors.rewritten_auxv (.refl hwords) hm₂ ?_⟩
  rw [List.length_map, hauxv]

theorem StackVectors.OnStack.getenv_eq {name : List UInt8} {t : Nat}
    (h : v.OnStack m stack len stackEnd str) (hname : (0 : UInt8) ∉ name)
    (ht : v.envs.find? (fun p => IsVar name (str p)) = some t) (hfuel : len ≤ fuel) :
    getenv m name fuel (v.envAddr (stackEnd + 16)) = some (t + (name ++ [chr '=']).length) := by
  have hwords := (StackVectors.wordsAt_parts h.words).2.1
  have hfind := CkptRestart.getenv_eq hwords
    (fun p hp => h.ne_zero (List.mem_append_right _ hp))
    (fun p hp => h.strings p (List.mem_append_right _ hp)) hname
    (Nat.lt_of_lt_of_le h.lengths.2.1 hfuel)
  rw [hfind, ht]

theorem renamePreload_new {q : Nat} (hc : CopyHolds v m newStack stack len stackEnd m' w)
    (hargs : w.args.length = v.args.length) (henvs : w.envs = v.envs.map (relocate newStack stack))
    (h : v.OnStack m stack len stackEnd str) (hnew : NewRegion newStack stack len)
    (hq : v.envs.find? (fun p => strstr (str p) uhPreload) = some q) (hfuel : len ≤ fuel) :
    renamePreload fuel fuel (relocate newStack stack (v.envAddr (stackEnd + 16))) m' =
      some (m'.store (relocate newStack stack q) (cstr ['L', 'D'])) := by
  have hstart := h.start
  have hplace : relocate newStack stack (v.envAddr (stackEnd + 16)) =
      w.envAddr (relocate newStack stack (stackEnd + 16)) := by
    rw [StackVectors.envAddr, StackVectors.envAddr, relocate_add (by omega), hargs]
  have hwords := (StackVectors.wordsAt_parts hc.rewritten.words).2.1
  rw [henvs, ← hplace] at hwords
  have hbound : ∀ p ∈ v.envs, (str p).length < fuel := by
    intro p hp
    have habove := h.above p (List.mem_append_right _ hp)
    rw [StackVectors.endAddr] at habove
    omega
  have hfind := renamePreload_eq hwords
    (fun p _ => Nat.ne_of_gt (Nat.lt_of_lt_of_le hnew.pos (Nat.le_add_right _ _)))
    (fun p hp => hc.string_new h (List.mem_append_right _ hp)) hbound
    (Nat.lt_of_lt_of_le h.lengths.2.1 hfuel)
  rw [hfind, hq]

/-- A variable of this name has the name and the sign in it. -/
theorem StackVectors.OnStack.value_le {name : List UInt8} {t : Nat}
    (h : v.OnStack m stack len stackEnd str)
    (ht : v.envs.find? (fun p => IsVar name (str p)) = some t) :
    v.endAddr (stackEnd + 16) ≤ t + (name ++ [chr '=']).length ∧
      t + (name ++ [chr '=']).length < stack + len := by
  have hvar : IsVar name (str t) := by simpa using List.find?_some ht
  have habove := h.above t (List.mem_append_right _ (List.mem_of_find?_eq_some ht))
  have hlen : (name ++ [chr '=']).length ≤ (str t).length := List.IsPrefix.length_le hvar
  omega

/-- A string with the name in it has room for two bytes. -/
theorem two_le_length_of_strstr {s : List UInt8} (h : strstr s uhPreload = true) : 2 ≤ s.length := by
  have hlen : uhPreload.length ≤ s.length := List.IsInfix.length_le (of_decide_eq_true h)
  have hten : uhPreload.length = 10 := rfl
  omega

theorem StackVectors.OnStack.found_le {q : Nat} (h : v.OnStack m stack len stackEnd str)
    (hq : v.envs.find? (fun p => strstr (str p) uhPreload) = some q) :
    v.endAddr (stackEnd + 16) ≤ q ∧ q + 2 ≤ stack + len := by
  have hin : strstr (str q) uhPreload = true := by simpa using List.find?_some hq
  have htwo := two_le_length_of_strstr hin
  have habove := h.above q (List.mem_append_right _ (List.mem_of_find?_eq_some hq))
  omega

end Stages

/-! ## The whole copy -/

section Copy

variable {v : StackVectors} {m : ByteMem} {str : Nat → List UInt8}
  {newStack stack len stackEnd fuel : Nat}

/-- Where the vectors are, in the original region and in the copy of it. -/
theorem copy_addresses (h : v.OnStack m stack len stackEnd str)
    (hnew : NewRegion newStack stack len) (hfuel : len ≤ fuel) :
    (getArgvAddr stackEnd = stackEnd + 16 ∧
      getEnvAddr (stackEnd + 16)
        (toInt32 (load 4 (m.copy newStack stack len) (getArgcAddr stackEnd))) =
          v.envAddr (stackEnd + 16)) ∧
    (getArgcAddr (relocate newStack stack stackEnd) = relocate newStack stack (stackEnd + 8) ∧
      getArgvAddr (relocate newStack stack stackEnd) = relocate newStack stack (stackEnd + 16) ∧
      getEnvAddr (relocate newStack stack (stackEnd + 16))
        (toInt32 (load 4 (m.copy newStack stack len) (relocate newStack stack (stackEnd + 8)))) =
          relocate newStack stack (v.envAddr (stackEnd + 16))) ∧
    getAuxvAddr (m.copy newStack stack len) fuel
        (relocate newStack stack (v.envAddr (stackEnd + 16))) =
      some (v.auxAddr (relocate newStack stack (stackEnd + 16))) := by
  have hstart := h.start
  have hbounded := h.bounded
  have hbounded' := hnew.bounded
  have hend := h.endAddr_le
  rw [StackVectors.endAddr, v.length_words] at hend
  have hrel : ∀ n, relocate newStack stack (stackEnd + n) =
      relocate newStack stack stackEnd + n := fun n => relocate_add hstart
  have hplace : relocate newStack stack stackEnd = newStack + (stackEnd - stack) := rfl
  have henv : v.envAddr (stackEnd + 16) = stackEnd + (16 + 8 * (v.args.length + 1)) := by
    rw [StackVectors.envAddr, Nat.add_assoc]
  -- `argc` is read from both regions, and is the same
  have hargc : load 4 (m.copy newStack stack len) (stackEnd + 8) = load 4 m (stackEnd + 8) :=
    load_congr fun i hi => copy_outside m (by have := hnew.apart; omega)
  have hargc' : load 4 (m.copy newStack stack len) (relocate newStack stack (stackEnd + 8)) =
      load 4 m (stackEnd + 8) := by
    refine load_congr fun i hi => ?_
    rw [← relocate_add (by omega)]
    exact copy_relocate m (by omega) (by omega)
  rcases @getAddr_eq stackEnd v.args.length (by omega) with ⟨hgetArgc, hgetArgv, hgetEnv⟩
  rcases @getAddr_eq (relocate newStack stack stackEnd) v.args.length (by omega) with
    ⟨hgetArgc', hgetArgv', hgetEnv'⟩
  refine ⟨⟨hgetArgv, ?_⟩, ⟨?_, ?_, ?_⟩, ?_⟩
  · rw [hgetArgc, hargc, h.argc, hgetEnv]
    rfl
  · rw [hgetArgc', hrel]
  · rw [hgetArgv', hrel]
  · rw [hargc', h.argc, hrel, hgetEnv', henv, hrel, Nat.add_assoc]
  · have hwords := (StackVectors.wordsAt_parts
      (@copyHolds_copy v m str newStack stack len stackEnd h).rewritten.words).2.1
    have hplace' : relocate newStack stack (v.envAddr (stackEnd + 16)) =
        v.envAddr (relocate newStack stack (stackEnd + 16)) := relocate_add (by omega)
    rw [hplace']
    exact getAuxvAddr_eq hwords (fun p hp => h.ne_zero (List.mem_append_right _ hp))
      (Nat.lt_of_lt_of_le h.lengths.2.1 hfuel)

/-- The memory at the end, put together from the last vectors, the renamed string and the region below
the stack. -/
theorem relocatedStack_of_stages {w w' : StackVectors} {m₄ m₆ : ByteMem} {target q : Nat}
    {info : DynObjInfo} (h : v.OnStack m stack len stackEnd str)
    (hc : CopyHolds v m newStack stack len stackEnd m₄ w)
    (hm₆ : Rewritten (m₄.store (relocate newStack stack q) (cstr ['L', 'D'])) m₆
      (relocate newStack stack (stackEnd + 16)) w'.words)
    (hlen : w'.words.length = v.words.length) (hw' : w' = v.relocated newStack stack target info)
    (hq : v.endAddr (stackEnd + 16) ≤ q) (hqlt : q + 2 ≤ stack + len) :
    RelocatedStack v m (m₆.fill newStack 0 (stackEnd - stack)) newStack stack len stackEnd target q
      info := by
  have hstart := h.start
  have hend : v.endAddr (stackEnd + 16) = stackEnd + 16 + 8 * w'.words.length := by
    rw [hlen, StackVectors.endAddr]
  have hrel : ∀ x, relocate newStack stack x = newStack + (x - stack) := fun _ => rfl
  have hargv := hrel (stackEnd + 16)
  have hplace := hrel q
  have htwo : (cstr ['L', 'D']).length = 2 := rfl
  -- what is not below the stack is as in `m₆`
  have hfill : ∀ x, newStack + (stackEnd - stack) ≤ x →
      m₆.fill newStack 0 (stackEnd - stack) x = m₆ x := fun x hx => fill_outside m₆ 0 (Or.inr hx)
  -- and what is not in the vectors either is as it was before `patchAuxv`
  have hstored : ∀ x, newStack + (stackEnd - stack) ≤ x →
      (x < relocate newStack stack (stackEnd + 16) ∨
        relocate newStack stack (stackEnd + 16) + 8 * w'.words.length ≤ x) →
      m₆.fill newStack 0 (stackEnd - stack) x =
        m₄.store (relocate newStack stack q) (cstr ['L', 'D']) x := by
    intro x hx hvectors
    calc m₆.fill newStack 0 (stackEnd - stack) x = m₆ x := hfill x hx
      _ = m₄.store (relocate newStack stack q) (cstr ['L', 'D']) x := hm₆.frame x hvectors
  refine ⟨?_, ?_, ?_, ?_, ?_⟩
  · rw [← hw']
    exact hm₆.words.congr fun i _ => hfill _ (by omega)
  · have hld : (m₄.store (relocate newStack stack q) (cstr ['L', 'D'])).bytes
        (relocate newStack stack q) 2 = cstr ['L', 'D'] :=
      m₄.bytes_store (relocate newStack stack q) (cstr ['L', 'D'])
    rw [← hld]
    exact bytes_congr fun i _ => hstored _ (by omega) (Or.inr (by omega))
  · intro x hle hlt hvectors hname
    have hplace' := hrel x
    have hlast : v.endAddr (stackEnd + 16) < stack + len := h.endAddr_le
    calc m₆.fill newStack 0 (stackEnd - stack) (relocate newStack stack x)
        = m₄.store (relocate newStack stack q) (cstr ['L', 'D']) (relocate newStack stack x) :=
          hstored _ (by omega) (by omega)
      _ = m₄ (relocate newStack stack x) := m₄.store_outside (by omega)
      _ = m x := hc.around h (by omega) hlt hvectors
  · intro x hle hlt
    exact if_pos ⟨hle, hlt⟩
  · intro x hx
    have hlast : v.endAddr (stackEnd + 16) < stack + len := h.endAddr_le
    calc m₆.fill newStack 0 (stackEnd - stack) x = m₆ x := fill_outside m₆ 0 (by omega)
      _ = m₄.store (relocate newStack stack q) (cstr ['L', 'D']) x := hm₆.frame _ (by omega)
      _ = m₄ x := m₄.store_outside (by omega)
      _ = m.copy newStack stack len x := by
        refine hc.rewritten.frame _ ?_
        rw [hc.length, ← hlen]
        omega
      _ = m x := copy_outside m hx

/-- The number of bytes that the last `memset` clears. -/
theorem StackVectors.OnStack.cleared_eq (h : v.OnStack m stack len stackEnd str) :
    toUnsigned ((relocate newStack stack (stackEnd + 16) : Nat) - 2 * 8 - newStack : Int) =
      stackEnd - stack := by
  have hstart := h.start
  have hend := h.endAddr_le
  have hbounded := h.bounded
  rw [StackVectors.endAddr] at hend
  have hdiff : ((relocate newStack stack (stackEnd + 16) : Nat) - 2 * 8 - newStack : Int) =
      ((stackEnd - stack : Nat) : Int) := by
    unfold relocate
    omega
  rw [hdiff, toUnsigned_natCast (by omega)]

theorem patchStack_ok (h : v.OnStack m stack len stackEnd str)
    (hnew : NewRegion newStack stack len) {info : DynObjInfo} (hinfo : info.Fits)
    (hfuel : len ≤ fuel) {t q : Nat}
    (ht : v.envs.find? (fun p => IsVar targetLd (str p)) = some t)
    (hq : v.envs.find? (fun p => strstr (str p) uhPreload) = some q) :
    ∃ m', patchStack fuel (v.envAddr (stackEnd + 16)) newStack (relocate newStack stack stackEnd)
        stackEnd info (m.copy newStack stack len) =
          .ok (relocate newStack stack (stackEnd + 8), m') ∧
      RelocatedStack v m m' newStack stack len stackEnd
        (t + (targetLd ++ [chr '=']).length) q info := by
  have hstart := h.start
  have henough := h.enough
  have hargsne : v.args ≠ [] := fun hnil => absurd henough (by simp [hnil])
  have hcopy := @copyHolds_copy v m str newStack stack len stackEnd h
  -- the vectors, one loop after the other
  rcases hcopy.patch_args h hnew hfuel with ⟨m₂, hargs, hc₂⟩
  have htarget := (hc₂.onStack h hnew).getenv_eq (by decide) ht hfuel
  have hvalue := h.value_le ht
  have hshift := @NewRegion.shiftPointer_eq newStack stack len hnew (stackEnd + 16)
    (t + (targetLd ++ [chr '=']).length) (by omega)
    (Nat.le_trans (Nat.le_add_right _ _) hvalue.1) hvalue.2
  have hc₃ := hc₂.patch_head (by simpa using hargsne)
    (hshift ▸ shiftPointer_lt (stackEnd + 16) (relocate newStack stack (stackEnd + 16)) _)
  rcases hc₃.patch_envs (by simp; omega) rfl h hnew hfuel with ⟨m₄, henvs, hc₄⟩
  have hrename := renamePreload_new hc₄ (by simp; omega) rfl h hnew hq hfuel
  rcases hc₄.patch_auxv rfl h hinfo (h.found_le hq).1 (cstr ['L', 'D']) hfuel with
    ⟨m₆, hauxv, hm₆⟩
  rcases copy_addresses h hnew hfuel with
    ⟨⟨hargv, henv⟩, ⟨hargcAddr, hargvAddr, henvAddr⟩, hauxvAddr⟩
  -- the sizes of the vectors are those of the original ones
  have hauxAddr : StackVectors.auxAddr
      ⟨relocate newStack stack (t + (targetLd ++ [chr '=']).length) ::
        (v.args.map (relocate newStack stack)).tail, v.envs.map (relocate newStack stack), v.auxv,
        v.last⟩ (relocate newStack stack (stackEnd + 16)) =
      v.auxAddr (relocate newStack stack (stackEnd + 16)) := by
    simp only [StackVectors.auxAddr, StackVectors.envAddr, List.length_cons, List.length_tail,
      List.length_map, Nat.sub_add_cancel (Nat.le_of_succ_le henough)]
  have hfound := h.found_le hq
  refine ⟨m₆.fill newStack 0 (stackEnd - stack), ?_, ?_⟩
  · rw [hauxAddr] at hauxv
    simp only [patchStack, hargv, henv, hargcAddr, hargvAddr, henvAddr, hauxvAddr,
      Exec.ofOption_some, Exec.ok_bind, hargs, htarget, hshift, henvs, hrename, hauxv,
      h.cleared_eq]
    rfl
  · apply relocatedStack_of_stages h hc₄ hm₆ _ _ hfound.1 hfound.2
    · rw [← hc₄.length]
      simp only [StackVectors.length_words, List.length_map]
    · simp only [StackVectors.relocated, List.map_tail]

theorem find?_of_exists {envs : List Nat} {name : List UInt8}
    (hvar : ∃ p ∈ envs, IsVar name (str p)) :
    ∃ t, envs.find? (fun p => IsVar name (str p)) = some t := by
  rcases hvar with ⟨p, hp, hname⟩
  exact Option.isSome_iff_exists.1 (List.find?_isSome.2 ⟨p, hp, by simpa using hname⟩)

/-- The variable itself is a string with the name in it. -/
theorem found_of_isVar {envs : List Nat} (hvar : ∃ p ∈ envs, IsVar uhPreload (str p)) :
    ∃ q, envs.find? (fun p => strstr (str p) uhPreload) = some q := by
  rcases hvar with ⟨p, hp, hname⟩
  have hin : strstr (str p) uhPreload = true :=
    decide_eq_true ((List.prefix_append _ _).trans hname).isInfix
  exact Option.isSome_iff_exists.1 (List.find?_isSome.2 ⟨p, hp, hin⟩)

/-- Both variables are found, and no pointer is null. -/
theorem deepCopyStack_eq_patchStack (h : v.OnStack m stack len stackEnd str)
    (hnew : NewRegion newStack stack len) (info : DynObjInfo) (hfuel : len ≤ fuel) {t u : Nat}
    (ht : v.envs.find? (fun p => IsVar targetLd (str p)) = some t)
    (hu : v.envs.find? (fun p => IsVar uhPreload (str p)) = some u) :
    deepCopyStack fuel (v.envAddr (stackEnd + 16)) newStack stack len
        (relocate newStack stack stackEnd) stackEnd (some info) m =
      patchStack fuel (v.envAddr (stackEnd + 16)) newStack (relocate newStack stack stackEnd)
        stackEnd info (m.copy newStack stack len) := by
  have hpos := h.pos
  have hpos' := hnew.pos
  have hstart := h.start
  have hset : ¬ (t + (targetLd ++ [chr '=']).length = 0 ∨
      u + (uhPreload ++ [chr '=']).length = 0) := by
    simp
  have hnull : ¬ (newStack = 0 ∨ stack = 0 ∨ relocate newStack stack stackEnd = 0 ∨
      stackEnd = 0) := by
    unfold relocate
    omega
  simp only [deepCopyStack, h.getenv_eq (by decide) ht hfuel, h.getenv_eq (by decide) hu hfuel,
    Exec.ofOption_some, Exec.ok_bind, if_neg hset, if_neg hnull]

/-- The end that `createNewStackForRtld` gives for the new stack is at the place of the end of the
original one. -/
theorem copyStackForRtld_eq {area : Area} {environ : Nat} (hnew : NewRegion newStack area.addr area.size)
    (info : DynObjInfo) (hle : area.addr ≤ stackEnd) (hlt : stackEnd < area.addr + area.size)
    (hbounded : area.addr + area.size ≤ wordSize) :
    copyStackForRtld fuel environ newStack area (stackEnd + 8 : Nat) info m =
      deepCopyStack fuel environ newStack area.addr area.size
        (relocate newStack area.addr stackEnd) stackEnd (some info) m := by
  have hend : toUnsigned (((stackEnd + 8 : Nat) : Int) - 8) = stackEnd := by
    have hcast : (((stackEnd + 8 : Nat) : Int) - 8) = (stackEnd : Int) := by omega
    rw [hcast, toUnsigned_natCast (by omega)]
  have hoffset : toUnsigned ((stackEnd : Int) - area.addr) = stackEnd - area.addr := by
    rw [← Int.ofNat_sub hle, toUnsigned_natCast (by omega)]
  have hsum : wrap (newStack + (stackEnd - area.addr)) = relocate newStack area.addr stackEnd :=
    wrap_of_lt (hnew.relocate_lt hle hlt).2.2
  simp only [copyStackForRtld, hend, hoffset, hsum]

/-- The value of a variable is untouched: the two bytes are in another string, or in its name. -/
theorem RelocatedStack.value {m' : ByteMem} {target t q : Nat} {info : DynObjInfo} {name : List UInt8}
    (hr : RelocatedStack v m m' newStack stack len stackEnd target q info)
    (h : v.OnStack m stack len stackEnd str) (hname : 2 ≤ name.length)
    (ht : v.envs.find? (fun p => IsVar name (str p)) = some t)
    (hq : v.envs.find? (fun p => strstr (str p) uhPreload) = some q) :
    m'.StringAt (relocate newStack stack (t + (name ++ [chr '=']).length))
      ((str t).drop (name ++ [chr '=']).length) := by
  have htmem := List.mem_append_right v.args (List.mem_of_find?_eq_some ht)
  have hqmem := List.mem_append_right v.args (List.mem_of_find?_eq_some hq)
  have hvar : IsVar name (str t) := by simpa using List.find?_some ht
  have hlen : (name ++ [chr '=']).length ≤ (str t).length := List.IsPrefix.length_le hvar
  have hlonger : name.length < (name ++ [chr '=']).length := by simp
  have hfound := h.found_le hq
  have hin : strstr (str q) uhPreload = true := by simpa using List.find?_some hq
  have htwo := two_le_length_of_strstr hin
  have hclear : q + 2 ≤ t + (name ++ [chr '=']).length ∨ t + (str t).length < q := by
    by_cases heq : q = t
    · exact Or.inl (by omega)
    · rcases h.apart.forall hqmem htmem heq with hbefore | hafter
      · exact Or.inl (by omega)
      · exact Or.inr hafter
  have habove := h.above t htmem
  have hstart := h.start
  have hargv : stackEnd + 16 ≤ v.endAddr (stackEnd + 16) := Nat.le_add_right _ _
  refine ((h.strings t htmem).drop hlen).congr fun i hi => ?_
  rw [List.length_drop] at hi
  rw [← relocate_add (by omega)]
  exact hr.kept _ (by omega) (by omega) (Or.inr (by omega)) (by omega)

theorem deepCopyStack_relocated (h : v.OnStack m stack len stackEnd str)
    (hnew : NewRegion newStack stack len) {info : DynObjInfo} (hinfo : info.Fits)
    (hfuel : len ≤ fuel) (htarget : ∃ p ∈ v.envs, IsVar targetLd (str p))
    (hpreload : ∃ p ∈ v.envs, IsVar uhPreload (str p)) :
    ∃ m' t q,
      v.envs.find? (fun p => IsVar targetLd (str p)) = some t ∧
      v.envs.find? (fun p => strstr (str p) uhPreload) = some q ∧
      deepCopyStack fuel (v.envAddr (stackEnd + 16)) newStack stack len
          (relocate newStack stack stackEnd) stackEnd (some info) m =
        .ok (relocate newStack stack (stackEnd + 8), m') ∧
      load 4 m' (relocate newStack stack (stackEnd + 8)) = load 4 m (stackEnd + 8) ∧
      RelocatedStack v m m' newStack stack len stackEnd
        (t + (targetLd ++ [chr '=']).length) q info ∧
      m'.StringAt (relocate newStack stack (t + (targetLd ++ [chr '=']).length))
        ((str t).drop (targetLd ++ [chr '=']).length) := by
  rcases find?_of_exists htarget with ⟨t, ht⟩
  rcases find?_of_exists hpreload with ⟨u, hu⟩
  rcases found_of_isVar hpreload with ⟨q, hq⟩
  rcases patchStack_ok h hnew hinfo hfuel ht hq with ⟨m', hrun, hm'⟩
  have hstart := h.start
  have hend := h.endAddr_le
  have hfound := h.found_le hq
  rw [StackVectors.endAddr] at hend hfound
  refine ⟨m', t, q, ht, hq, ?_, ?_, hm', hm'.value h (by decide) ht hq⟩
  · rw [deepCopyStack_eq_patchStack h hnew info hfuel ht hu, hrun]
  · refine load_congr fun i hi => ?_
    rw [← relocate_add (by omega)]
    exact hm'.kept _ (by omega) (by omega) (Or.inl (by omega)) (Or.inl (by omega))

end Copy

theorem deepCopyStack_relocated_smallEnvs : ∃ m' t q,
    (smallVectors smallEnvs).envs.find? (fun p => IsVar targetLd (smallStr smallEnvs p)) = some t ∧
    (smallVectors smallEnvs).envs.find? (fun p => strstr (smallStr smallEnvs p) uhPreload) =
      some q ∧
    deepCopyStack 0x100 ((smallVectors smallEnvs).envAddr 0x1010) 0x8000 0x1000 0x100
        (relocate 0x8000 0x1000 0x1000) 0x1000 (some ⟨0, 3, 2, 1, 0, 0⟩) (smallMemory smallEnvs) =
      .ok (relocate 0x8000 0x1000 0x1008, m') ∧
    load 4 m' (relocate 0x8000 0x1000 0x1008) = load 4 (smallMemory smallEnvs) 0x1008 ∧
    RelocatedStack (smallVectors smallEnvs) (smallMemory smallEnvs) m' 0x8000 0x1000 0x100 0x1000
      (t + (targetLd ++ [chr '=']).length) q ⟨0, 3, 2, 1, 0, 0⟩ ∧
    m'.StringAt (relocate 0x8000 0x1000 (t + (targetLd ++ [chr '=']).length))
      ((smallStr smallEnvs t).drop (targetLd ++ [chr '=']).length) :=
  deepCopyStack_relocated onStack_smallEnvs ⟨by decide, by decide, by decide⟩ (by decide)
    (Nat.le_refl _) (by decide +kernel) (by decide +kernel)

end CkptRestart
