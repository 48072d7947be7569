import CkptRestart.CustomLoader
import CkptRestart.Lib.ByteMemory

/-!
# DeepCopyStack — the stack that `ld.so` starts on

`deepCopyStack` and `patchAuxv` of `kernel-loader.c`: the stack that the kernel has set up is copied as
bytes, and the vectors in the copy are then made to point into the copy.

* Arithmetic on a `uintptr_t` wraps.  A pointer that walks along a vector or a string does not: behind
  the object it is undefined.
* Loops that end at a null word or a NUL byte take fuel, and are `none` when it has run out.
* What each loop does to a vector is said by `ByteMem.Rewritten`.
-/

namespace CkptRestart

open Lib ByteMem

/-! ## The places on a stack -/

def getArgcAddr (stackEnd : Nat) : Nat := wrap (stackEnd + 8)

def getArgvAddr (stackEnd : Nat) : Nat := wrap (stackEnd + 2 * 8)

def getEnvAddr (argv : Nat) (argc : Int) : Nat := toUnsigned (argv + 8 * (argc + 1))

def getAuxvAddr (m : ByteMem) : Nat → Nat → Option Nat
  | 0, _ => none
  | fuel + 1, evp => if load 8 m evp = 0 then some (evp + 8) else getAuxvAddr m fuel (evp + 8)

/-! ## The environment -/

def targetLd : List UInt8 := cstr ['T', 'A', 'R', 'G', 'E', 'T', '_', 'L', 'D']

def uhPreload : List UInt8 := cstr ['U', 'H', '_', 'P', 'R', 'E', 'L', 'O', 'A', 'D']

/-- `getenv(name)`, which is 0 when no variable has the name. -/
def getenv (m : ByteMem) (name : List UInt8) : Nat → Nat → Option Nat
  | 0, _ => none
  | fuel + 1, environ =>
      let p := load 8 m environ
      if p = 0 then some 0
      else if m.bytes p (name ++ [chr '=']).length = name ++ [chr '='] then
        some (p + (name ++ [chr '=']).length)
      else getenv m name fuel (environ + 8)

/-- The loop that turns `UH_PRELOAD` into `LD_PRELOAD`. -/
def renamePreload (bound : Nat) : Nat → Nat → ByteMem → Option ByteMem
  | 0, _, _ => none
  | fuel + 1, newEnvPtr, m =>
      let p := load 8 m newEnvPtr
      if p = 0 then some m
      else
        match m.readString bound p with
        | none => none
        | some s =>
            -- the needle can be anywhere in the string; what is written goes to its start
            if strstr s uhPreload then some (m.store p (cstr ['L', 'D']))
            else renamePreload bound fuel (newEnvPtr + 8) m

/-! ## The vectors -/

/-- A pointer that keeps its distance from the start of the vector it is in. -/
def shiftPointer (orig new p : Nat) : Nat := wrap (new + toUnsigned ((p : Int) - orig))

/-- `new[i] = shiftPointer orig new orig[i]`, until `orig[i]` is null. -/
def patchVector (orig new : Nat) : Nat → Nat → ByteMem → Option ByteMem
  | 0, _, _ => none
  | fuel + 1, i, m =>
      let p := load 8 m (orig + 8 * i)
      if p = 0 then some m
      else patchVector orig new fuel (i + 1) (m.storeWord (new + 8 * i) (shiftPointer orig new p))

def atNull : Nat := 0
def atPhdr : Nat := 3
def atPhnum : Nat := 5
def atEntry : Nat := 9

def patchAuxv (phnum phdr entry : Nat) : Nat → Nat → ByteMem → Option ByteMem
  | 0, _, _ => none
  | fuel + 1, av, m =>
      let aType := load 8 m av
      if aType = atNull then some m
      else
        let m :=
          if aType = atPhnum then m.storeWord (av + 8) phnum
          else if aType = atPhdr then m.storeWord (av + 8) phdr
          else if aType = atEntry then m.storeWord (av + 8) entry
          else m
        patchAuxv phnum phdr entry fuel (av + 16) m

/-! ## The copy -/

/-- What `deepCopyStack` does to the bytes it has copied. -/
def patchStack (fuel environ newStack newStackEnd origStackEnd : Nat) (info : DynObjInfo)
    (m : ByteMem) : Exec (Nat × ByteMem) := do
  -- the bytes have been copied, so `argc` can be read from either region
  let origArgv := getArgvAddr origStackEnd
  let origEnv := getEnvAddr origArgv (toInt32 (load 4 m (getArgcAddr origStackEnd)))
  let newArgcAddr := getArgcAddr newStackEnd
  let newArgv := getArgvAddr newStackEnd
  let newEnv := getEnvAddr newArgv (toInt32 (load 4 m newArgcAddr))
  -- the new vector still has the original pointers, and the null word where it is
  let newAuxv ← Exec.ofOption (getAuxvAddr m fuel newEnv)
  let m ← Exec.ofOption (patchVector origArgv newArgv fuel 0 m)
  -- `argv[0]` becomes the path of ld.so
  let target ← Exec.ofOption (getenv m targetLd fuel environ)
  let m := m.storeWord newArgv (shiftPointer origArgv newArgv target)
  let m ← Exec.ofOption (patchVector origEnv newEnv fuel 0 m)
  let m ← Exec.ofOption (renamePreload fuel fuel newEnv m)
  let m ← Exec.ofOption (patchAuxv info.phnum info.phdr info.entryPoint fuel newAuxv m)
  pure (newArgcAddr, m.fill newStack 0 (toUnsigned ((newArgv : Int) - 2 * 8 - newStack)))

/-- `deepCopyStack`, with the memory it runs in and the `environ` of the C library.  The frames of the
running functions are below the end of the original stack; the memory is that of all the rest. -/
def deepCopyStack (fuel environ newStack origStack len newStackEnd origStackEnd : Nat)
    (info : Option DynObjInfo) (m : ByteMem) : Exec (Nat × ByteMem) := do
  let target ← Exec.ofOption (getenv m targetLd fuel environ)
  let preload ← Exec.ofOption (getenv m uhPreload fuel environ)
  -- the two assertions
  if target = 0 ∨ preload = 0 then .exited
  else
    match info with
    | none => pure (0, m)
    | some info =>
        if newStack = 0 ∨ origStack = 0 ∨ newStackEnd = 0 ∨ origStackEnd = 0 then pure (0, m)
        else
          patchStack fuel environ newStack newStackEnd origStackEnd info
            (m.copy newStack origStack len)

/-- The copy that `createNewStackForRtld` has made once the new region is mapped; `startStack` is the
number in `/proc/self/stat`. -/
def copyStackForRtld (fuel environ newStack : Nat) (stack : Area) (startStack : Int)
    (info : DynObjInfo) (m : ByteMem) : Exec (Nat × ByteMem) :=
  let origStackEnd := toUnsigned (startStack - 8)
  let origStackOffset := toUnsigned ((origStackEnd : Int) - stack.addr)
  let newStackEnd := wrap (newStack + origStackOffset)
  deepCopyStack fuel environ newStack stack.addr stack.size newStackEnd origStackEnd (some info) m

/-! ## What the loops find -/

section Walks

variable {m : ByteMem} {str : Nat → List UInt8}

/-- The string is the definition of a variable of this name. -/
def IsVar (name s : List UInt8) : Prop := name ++ [chr '='] <+: s

instance (name s : List UInt8) : Decidable (IsVar name s) :=
  inferInstanceAs (Decidable (_ <+: _))

theorem getAuxvAddr_eq {ps : List Nat} {evp fuel : Nat} (hwords : m.WordsAt evp (ps ++ [0]))
    (hne : ∀ p ∈ ps, p ≠ 0) (hfuel : ps.length < fuel) :
    getAuxvAddr m fuel evp = some (evp + 8 * (ps.length + 1)) := by
  induction ps generalizing evp fuel with
  | nil =>
      cases fuel with
      | zero => exact absurd hfuel (Nat.not_lt_zero _)
      | succ fuel => exact if_pos hwords.1
  | cons p ps ih =>
      cases fuel with
      | zero => exact absurd hfuel (Nat.not_lt_zero _)
      | succ fuel =>
          have hword : load 8 m evp ≠ 0 := by
            rw [hwords.1]
            exact hne p List.mem_cons_self
          have hrest := ih hwords.2 (fun q hq => hne q (List.mem_cons_of_mem _ hq))
            (Nat.lt_of_succ_lt_succ hfuel)
          rw [getAuxvAddr, if_neg hword, hrest, List.length_cons]
          congr 1
          omega

/-- `getenv` finds the first definition. -/
theorem getenv_eq {ps : List Nat} {name : List UInt8} {environ fuel : Nat}
    (hwords : m.WordsAt environ (ps ++ [0])) (hne : ∀ p ∈ ps, p ≠ 0)
    (hstr : ∀ p ∈ ps, m.StringAt p (str p)) (hname : (0 : UInt8) ∉ name)
    (hfuel : ps.length < fuel) :
    getenv m name fuel environ =
      some (match ps.find? fun p => IsVar name (str p) with
        | some p => p + (name ++ [chr '=']).length
        | none => 0) := by
  induction ps generalizing environ fuel with
  | nil =>
      cases fuel with
      | zero => exact absurd hfuel (Nat.not_lt_zero _)
      | succ fuel =>
          have hnull : load 8 m environ = 0 := hwords.1
          simp [getenv, hnull]
  | cons p ps ih =>
      cases fuel with
      | zero => exact absurd hfuel (Nat.not_lt_zero _)
      | succ fuel =>
          have hword : load 8 m environ = p := hwords.1
          have hzero : (0 : UInt8) ∉ name ++ [chr '='] := by
            simpa [List.mem_append, hname] using (by decide : (0 : UInt8) ≠ chr '=')
          have hvar : m.bytes p (name ++ [chr '=']).length = name ++ [chr '='] ↔
              IsVar name (str p) :=
            (hstr p List.mem_cons_self).bytes_eq_iff hzero
          have hrest := ih hwords.2 (fun q hq => hne q (List.mem_cons_of_mem _ hq))
            (fun q hq => hstr q (List.mem_cons_of_mem _ hq)) (Nat.lt_of_succ_lt_succ hfuel)
          simp only [getenv, hword, if_neg (hne p List.mem_cons_self), hvar]
          by_cases hd : IsVar name (str p)
          · rw [if_pos hd, List.find?_cons_of_pos (by simpa using hd)]
          · rw [if_neg hd, hrest, List.find?_cons_of_neg (by simpa using hd)]

/-- The first string that has the name in it gets the two bytes, wherever in it the name is. -/
theorem renamePreload_eq {ps : List Nat} {f : Nat → Nat} {newEnv bound fuel : Nat}
    (hwords : m.WordsAt newEnv (ps.map f ++ [0])) (hne : ∀ p ∈ ps, f p ≠ 0)
    (hstr : ∀ p ∈ ps, m.StringAt (f p) (str p)) (hbound : ∀ p ∈ ps, (str p).length < bound)
    (hfuel : ps.length < fuel) :
    renamePreload bound fuel newEnv m =
      some (match ps.find? fun p => strstr (str p) uhPreload with
        | some p => m.store (f p) (cstr ['L', 'D'])
        | none => m) := by
  induction ps generalizing newEnv fuel with
  | nil =>
      cases fuel with
      | zero => exact absurd hfuel (Nat.not_lt_zero _)
      | succ fuel =>
          have hnull : load 8 m newEnv = 0 := hwords.1
          simp [renamePreload, hnull]
  | cons p ps ih =>
      cases fuel with
      | zero => exact absurd hfuel (Nat.not_lt_zero _)
      | succ fuel =>
          have hword : load 8 m newEnv = f p := hwords.1
          have hread := readString_eq (hstr p List.mem_cons_self) (hbound p List.mem_cons_self)
          have hrest := ih hwords.2 (fun q hq => hne q (List.mem_cons_of_mem _ hq))
            (fun q hq => hstr q (List.mem_cons_of_mem _ hq))
            (fun q hq => hbound q (List.mem_cons_of_mem _ hq)) (Nat.lt_of_succ_lt_succ hfuel)
          simp only [renamePreload, hword, if_neg (hne p List.mem_cons_self), hread]
          by_cases hin : strstr (str p) uhPreload
          · rw [if_pos hin, List.find?_cons_of_pos (by simpa using hin)]
          · rw [if_neg hin, hrest, List.find?_cons_of_neg (by simpa using hin)]

end Walks

/-! ## What the loops write -/

section Vectors

variable {m : ByteMem}

theorem shiftPointer_lt (orig new p : Nat) : shiftPointer orig new p < wordSize :=
  Nat.mod_lt _ (by decide)

/-- Without a carry the pointer keeps its distance. -/
theorem shiftPointer_eq {orig new p : Nat} (hle : orig ≤ p) (hlt : new + (p - orig) < wordSize) :
    shiftPointer orig new p = new + (p - orig) := by
  have hdelta : ((p : Int) - orig) = ((p - orig : Nat) : Int) := (Int.ofNat_sub hle).symm
  rw [shiftPointer, hdelta, toUnsigned_natCast (by omega), wrap_of_lt hlt]

/-- The vector that is read is apart from the one that is written. -/
theorem patchVector_rewritten {orig new : Nat} {ps : List Nat} {i fuel : Nat}
    (hwords : m.WordsAt (orig + 8 * i) (ps ++ [0])) (hne : ∀ p ∈ ps, p ≠ 0)
    (hapart : orig + 8 * (i + ps.length + 1) ≤ new ∨ new + 8 * (i + ps.length + 1) ≤ orig)
    (hfuel : ps.length < fuel) :
    ∃ m', patchVector orig new fuel i m = some m' ∧
      Rewritten m m' (new + 8 * i) (ps.map (shiftPointer orig new)) := by
  induction ps generalizing i fuel m with
  | nil =>
      cases fuel with
      | zero => exact absurd hfuel (Nat.not_lt_zero _)
      | succ fuel =>
          have hnull : load 8 m (orig + 8 * i) = 0 := hwords.1
          exact ⟨m, by simp [patchVector, hnull], .refl trivial⟩
  | cons p ps ih =>
      cases fuel with
      | zero => exact absurd hfuel (Nat.not_lt_zero _)
      | succ fuel =>
          have hword : load 8 m (orig + 8 * i) = p := hwords.1
          have hfirst := rewritten_storeWord m (new + 8 * i) (shiftPointer_lt orig new p)
          rw [List.length_cons] at hapart
          -- the rest of the vector that is read is not what has been written
          have hrest : (m.storeWord (new + 8 * i) (shiftPointer orig new p)).WordsAt
              (orig + 8 * (i + 1)) (ps ++ [0]) := by
            have htail : m.WordsAt (orig + 8 * i + 8) (ps ++ [0]) := hwords.2
            rw [Nat.mul_succ, ← Nat.add_assoc]
            refine htail.congr fun j hj => hfirst.frame _ ?_
            rw [List.length_append, List.length_singleton] at hj
            rw [List.length_singleton]
            omega
          rcases ih hrest (fun q hq => hne q (List.mem_cons_of_mem _ hq)) (by omega)
            (Nat.lt_of_succ_lt_succ hfuel) with ⟨m', hrun, hm'⟩
          refine ⟨m', ?_, ?_⟩
          · simpa [patchVector, hword, hne p List.mem_cons_self] using hrun
          · simpa using hfirst.append (by simpa [Nat.mul_succ, Nat.add_assoc] using hm')

/-- The two words of each entry. -/
def auxWords (auxv : List (Nat × Nat)) : List Nat := auxv.flatMap fun e => [e.1, e.2]

theorem length_auxWords (auxv : List (Nat × Nat)) : (auxWords auxv).length = 2 * auxv.length := by
  induction auxv with
  | nil => rfl
  | cons e auxv ih =>
      rw [List.length_cons, Nat.mul_succ, ← ih]
      simp [auxWords]

def patchEntry (phnum phdr entry : Nat) (e : Nat × Nat) : Nat × Nat :=
  (e.1, if e.1 = atPhnum then phnum else if e.1 = atPhdr then phdr
    else if e.1 = atEntry then entry else e.2)

/-- A round of `patchAuxv` on one entry. -/
theorem patchAuxv_entry {phnum phdr entry av : Nat} (hphnum : phnum < wordSize)
    (hphdr : phdr < wordSize) (hentry : entry < wordSize) {e : Nat × Nat}
    (hwords : m.WordsAt av [e.1, e.2]) :
    Rewritten m
      (if e.1 = atPhnum then m.storeWord (av + 8) phnum
        else if e.1 = atPhdr then m.storeWord (av + 8) phdr
        else if e.1 = atEntry then m.storeWord (av + 8) entry
        else m)
      av [e.1, (patchEntry phnum phdr entry e).2] := by
  -- a stored value goes behind the type, which stays
  have hstore : ∀ v, v < wordSize → Rewritten m (m.storeWord (av + 8) v) av [e.1, v] := by
    intro v hv
    exact @Rewritten.splice m m _ av [e.1] [e.2] [v] [] (.refl hwords)
      (rewritten_storeWord m (av + 8) hv) rfl
  unfold patchEntry
  split
  · exact hstore phnum hphnum
  · split
    · exact hstore phdr hphdr
    · split
      · exact hstore entry hentry
      · exact .refl hwords

theorem patchAuxv_rewritten {phnum phdr entry : Nat} (hphnum : phnum < wordSize)
    (hphdr : phdr < wordSize) (hentry : entry < wordSize) {auxv : List (Nat × Nat)} {av fuel : Nat}
    (hwords : m.WordsAt av (auxWords auxv ++ [atNull])) (hne : ∀ e ∈ auxv, e.1 ≠ atNull)
    (hfuel : auxv.length < fuel) :
    ∃ m', patchAuxv phnum phdr entry fuel av m = some m' ∧
      Rewritten m m' av (auxWords (auxv.map (patchEntry phnum phdr entry))) := by
  induction auxv generalizing av fuel m with
  | nil =>
      cases fuel with
      | zero => exact absurd hfuel (Nat.not_lt_zero _)
      | succ fuel =>
          have hnull : load 8 m av = atNull := hwords.1
          exact ⟨m, by simp [patchAuxv, hnull], .refl trivial⟩
  | cons e auxv ih =>
      cases fuel with
      | zero => exact absurd hfuel (Nat.not_lt_zero _)
      | succ fuel =>
          have hword : load 8 m av = e.1 := hwords.1
          have hentries : m.WordsAt av [e.1, e.2] := ⟨hwords.1, hwords.2.1, trivial⟩
          have hfirst := patchAuxv_entry hphnum hphdr hentry hentries
          have htail : m.WordsAt (av + 16) (auxWords auxv ++ [atNull]) := hwords.2.2
          have hrest := htail.congr fun j _ =>
            hfirst.frame (av + 16 + j) (Or.inr (Nat.le_add_right _ _))
          rcases ih hrest (fun d hd => hne d (List.mem_cons_of_mem _ hd))
            (Nat.lt_of_succ_lt_succ hfuel) with ⟨m', hrun, hm'⟩
          refine ⟨m', ?_, hfirst.append hm'⟩
          simpa [patchAuxv, hword, hne e List.mem_cons_self] using hrun

end Vectors

end CkptRestart
