import CkptRestart.Lib.ByteMemory
import CkptRestart.PatchLibc

/-!
# Trampoline — the twelve bytes of a jump

What `insertTrampoline` leaves at the address that it patches, read back as instructions.  The bytes
may lie in two pages; both are opened for the copy and closed afterwards.

`insertTrampoline_cases` says all that a call can do, and `insertTrampoline_exact` that the jump is
there and that nothing else has changed.
-/

namespace CkptRestart

open Lib

/-! ## Instructions -/

/-- The two instructions that a trampoline consists of. -/
inductive Instruction
  | movRax (imm : Nat)
  | jmpRax
  deriving DecidableEq, Repr

/-- The instruction at the front of the code, and the code behind it. -/
def decodeInstruction : List UInt8 → Option (Instruction × List UInt8)
  | 0x48 :: 0xb8 :: code =>
      if code.length < 8 then none else some (.movRax (getWord 8 code).1, (getWord 8 code).2)
  | 0xff :: 0xe0 :: code => some (.jmpRax, code)
  | _ => none

/-- As many instructions, which are all of the code. -/
def decodeCode : Nat → List UInt8 → Option (List Instruction)
  | 0, code => if code = [] then some [] else none
  | n + 1, code => do
      let (instruction, code) ← decodeInstruction code
      let instructions ← decodeCode n code
      pure (instruction :: instructions)

/-- `asmJump` with an address in it. -/
def trampoline (toAddr : Nat) : List UInt8 := [0x48, 0xb8] ++ putWord 8 toAddr ++ [0xff, 0xe0]

theorem length_trampoline (toAddr : Nat) : (trampoline toAddr).length = asmJump.length := by
  simp [trampoline, asmJump]

theorem decodeCode_trampoline {toAddr : Nat} (hto : toAddr < wordSize) :
    decodeCode 2 (trampoline toAddr) = some [.movRax toAddr, .jmpRax] := by
  have hread : getWord 8 (putWord 8 toAddr ++ [0xff, 0xe0]) = (toAddr, [0xff, 0xe0]) :=
    getWord_putWord_of_lt hto _
  have hlong : ¬ (putWord 8 toAddr ++ [0xff, 0xe0]).length < 8 := by simp
  have hmov : decodeInstruction (0x48 :: 0xb8 :: (putWord 8 toAddr ++ [0xff, 0xe0])) =
      some (.movRax toAddr, [0xff, 0xe0]) := by
    rw [decodeInstruction, if_neg hlong, hread]
  have hjmp : decodeInstruction [0xff, 0xe0] = some (.jmpRax, []) := rfl
  simp [trampoline, decodeCode, hmov, hjmp]

/-! ## Pages -/

/-- The length of the pages that are opened. -/
def patchLength (fromAddr : Nat) : Nat :=
  if pageOffset fromAddr + asmJump.length > pageSize then 2 * pageSize else pageSize

def patchPages (fromAddr : Nat) : Set Nat :=
  Set.Ico (roundDown fromAddr) (roundDown fromAddr + patchLength fromAddr)

/-- The comparison of the code, in words, is one of offsets in a page. -/
theorem crosses_iff (fromAddr : Nat) :
    toUnsigned ((wrap (fromAddr + asmJump.length) : Int) - roundDown fromAddr) > pageSize ↔
      pageOffset fromAddr + asmJump.length > pageSize := by
  have hsplit := roundDown_add_pageOffset fromAddr
  have hoffset : pageOffset fromAddr < pageSize := Nat.mod_lt _ (by decide)
  have hlen : asmJump.length = 12 := rfl
  have haligned : roundDown fromAddr = fromAddr / pageSize * pageSize := rfl
  unfold toUnsigned wrap wordSize pageSize at *
  omega

theorem pagesUp_patchLength (fromAddr : Nat) :
    pagesUp (patchLength fromAddr) = patchLength fromAddr := by
  unfold patchLength
  split <;> rfl

/-- The patch lies in the pages. -/
theorem mem_patchPages {fromAddr x : Nat} (hlo : fromAddr ≤ x)
    (hhi : x < fromAddr + asmJump.length) : x ∈ patchPages fromAddr := by
  have hsplit := roundDown_add_pageOffset fromAddr
  have hoffset : pageOffset fromAddr < pageSize := Nat.mod_lt _ (by decide)
  refine ⟨by omega, ?_⟩
  have hlen : asmJump.length = 12 := rfl
  unfold patchLength pageSize at *
  split <;> omega

/-! ## The call -/

/-- The memory after the two copies. -/
def AddrSpace.patch (s : AddrSpace) (fromAddr toAddr : Nat) : AddrSpace :=
  (s.store fromAddr asmJump).store (fromAddr + addrOffset) (putWord 8 toAddr)

@[simp] theorem AddrSpace.maps_patch (s : AddrSpace) (fromAddr toAddr : Nat) :
    (s.patch fromAddr toAddr).maps = s.maps := rfl

theorem AddrSpace.bytes_patch (s : AddrSpace) (fromAddr toAddr : Nat) :
    (s.patch fromAddr toAddr).bytes = ByteMem.store s.bytes fromAddr (trampoline toAddr) :=
  @ByteMem.store_store_inside s.bytes fromAddr [0x48, 0xb8]
    [0x78, 0x56, 0x34, 0x12, 0x78, 0x56, 0x34, 0x12] (putWord 8 toAddr) [0xff, 0xe0]
    (length_putWord 8 toAddr)

variable {k : Kernel} {s : AddrSpace} {fromAddr toAddr : Nat}

/-- The pages of the patch, made writable. -/
def Kernel.openPages (k : Kernel) (s : AddrSpace) (fromAddr : Nat) : Int × AddrSpace :=
  k.mprotect s (roundDown fromAddr) (patchLength fromAddr) (protRead ||| protWrite ||| protExec)

/-- The pages as they end. -/
def Kernel.closePages (k : Kernel) (s : AddrSpace) (fromAddr : Nat) : Int × AddrSpace :=
  k.mprotect s (roundDown fromAddr) (patchLength fromAddr) (protRead ||| protExec)

/-- A call of `mprotect` that fails returns -1, as its caller then does. -/
theorem Kernel.closePages_failed (k : Kernel) (s : AddrSpace) (fromAddr : Nat) :
    (if (k.closePages s fromAddr).1 < 0 then (-1, (k.closePages s fromAddr).2)
      else k.closePages s fromAddr) = k.closePages s fromAddr := by
  rcases k.mprotect_cases s (roundDown fromAddr) (patchLength fromAddr) (protRead ||| protExec) with
    ⟨hfail, _⟩ | ⟨_, hclosed⟩
  · have hfail : (k.closePages s fromAddr).1 = -1 := hfail
    rw [if_pos (by rw [hfail]; decide)]
    exact Prod.ext hfail.symm rfl
  · have hclosed : (k.closePages s fromAddr).1 = 0 := congrArg Prod.fst hclosed
    rw [if_neg (by rw [hclosed]; decide)]

theorem insertTrampoline_eq (k : Kernel) (s : AddrSpace) (hfrom : fromAddr ≠ 0)
    (hto : toAddr ≠ 0) :
    insertTrampoline k s fromAddr toAddr =
      if (k.openPages s fromAddr).1 < 0 then (-1, (k.openPages s fromAddr).2)
      else k.closePages ((k.openPages s fromAddr).2.patch fromAddr toAddr) fromAddr := by
  have hlength : (if toUnsigned ((wrap (fromAddr + asmJump.length) : Int) - roundDown fromAddr) >
      pageSize then 2 * pageSize else pageSize) = patchLength fromAddr := by
    simp only [crosses_iff]
    rfl
  rw [← Kernel.closePages_failed, insertTrampoline, if_neg (not_or.2 ⟨hfrom, hto⟩)]
  simp only [hlength]
  rfl

/-- A call of `mprotect` that succeeds has found the whole range mapped. -/
theorem Kernel.mprotect_ok {addr len prot : Nat} (h : (k.mprotect s addr len prot).1 = 0) :
    ∃ hvalid : ValidRange addr len, s.mapped addr len = true ∧
      k.mprotect s addr len prot = (0, s.protect addr len prot hvalid) := by
  unfold Kernel.mprotect at h ⊢
  cases hrefused : k.refusesMprotect s addr len prot with
  | some e => simp [hrefused] at h
  | none =>
      by_cases hvalid : ValidRange addr len
      · by_cases hmapped : s.mapped addr len = true
        · exact ⟨hvalid, hmapped, by simp [hvalid, hmapped]⟩
        · simp [hrefused, hvalid, hmapped] at h
      · simp [hrefused, hvalid] at h

/-- What it has mapped has the new protection. -/
theorem AddrSpace.protAt_protect {addr len prot : Nat} (hvalid : ValidRange addr len)
    (hmapped : s.mapped addr len = true) (hprot : prot < 8) {x : Nat} (hlo : addr ≤ x)
    (hhi : x < addr + pagesUp len) : (s.protect addr len prot hvalid).protAt x = some prot := by
  obtain ⟨v, hv⟩ := Option.ne_none_iff_exists'.1 (lookup_of_mapped hvalid.aligned hmapped hlo hhi)
  rw [protAt, lookup_protect, if_pos ⟨hlo, hhi⟩, hv]
  exact congrArg some (Nat.mod_eq_of_lt hprot)

/-- From `s` to `s'` no byte has changed and nothing has been mapped or unmapped; pages of the patch may
have another protection. -/
structure Unpatched (s s' : AddrSpace) (fromAddr : Nat) : Prop where
  bytes : s'.bytes = s.bytes
  mapped : s'.mappedSet = s.mappedSet
  frame : ∀ x, x ∉ patchPages fromAddr → s'.maps.lookup x = s.maps.lookup x

theorem Unpatched.refl (s : AddrSpace) (fromAddr : Nat) : Unpatched s s fromAddr :=
  ⟨rfl, rfl, fun _ _ => rfl⟩

theorem Kernel.unpatched_openPages (k : Kernel) (s : AddrSpace) (fromAddr : Nat) :
    Unpatched s (k.openPages s fromAddr).2 fromAddr where
  bytes := k.bytes_mprotect s _ _ _
  mapped := k.mappedSet_mprotect s _ _ _
  frame := by
    intro x hx
    refine k.lookup_mprotect s fun hin => hx ?_
    rwa [pagesUp_patchLength] at hin

/-- All that a call can do: refuse a null pointer, fail to open the pages and change no byte, or copy
the jump, whether or not the pages can be closed. -/
theorem insertTrampoline_cases (k : Kernel) (s : AddrSpace) (fromAddr toAddr : Nat) :
    ((fromAddr = 0 ∨ toAddr = 0 ∨ (k.openPages s fromAddr).1 < 0) ∧
        (insertTrampoline k s fromAddr toAddr).1 = -1 ∧
        Unpatched s (insertTrampoline k s fromAddr toAddr).2 fromAddr) ∨
      ∃ hvalid : ValidRange (roundDown fromAddr) (patchLength fromAddr),
        s.mapped (roundDown fromAddr) (patchLength fromAddr) = true ∧
        k.openPages s fromAddr = (0, s.protect (roundDown fromAddr) (patchLength fromAddr)
          (protRead ||| protWrite ||| protExec) hvalid) ∧
        (insertTrampoline k s fromAddr toAddr).2.bytes =
          ByteMem.store s.bytes fromAddr (trampoline toAddr) ∧
        insertTrampoline k s fromAddr toAddr =
          k.closePages ((k.openPages s fromAddr).2.patch fromAddr toAddr) fromAddr := by
  by_cases hnull : fromAddr = 0 ∨ toAddr = 0
  · left
    have hrun : insertTrampoline k s fromAddr toAddr = (-1, s) := if_pos hnull
    rw [hrun]
    exact ⟨hnull.imp_right Or.inl, rfl, .refl s fromAddr⟩
  obtain ⟨hfrom, hto⟩ := not_or.1 hnull
  rw [insertTrampoline_eq k s hfrom hto]
  rcases k.mprotect_cases s (roundDown fromAddr) (patchLength fromAddr)
    (protRead ||| protWrite ||| protExec) with ⟨hfail, _⟩ | ⟨_, hopened⟩
  · left
    have hopen : (k.openPages s fromAddr).1 < 0 := lt_of_eq_of_lt hfail (by decide)
    rw [if_pos hopen]
    exact ⟨.inr (.inr hopen), rfl, k.unpatched_openPages s fromAddr⟩
  · right
    rcases Kernel.mprotect_ok (congrArg Prod.fst hopened) with ⟨hvalid, hmapped, hopen⟩
    have hopen : k.openPages s fromAddr = (0, s.protect (roundDown fromAddr)
        (patchLength fromAddr) (protRead ||| protWrite ||| protExec) hvalid) := hopen
    refine ⟨hvalid, hmapped, hopen, ?_⟩
    rw [hopen]
    -- closing the pages changes no byte, whether it succeeds or not
    have hbytes := k.bytes_mprotect ((s.protect (roundDown fromAddr) (patchLength fromAddr)
      (protRead ||| protWrite ||| protExec) hvalid).patch fromAddr toAddr) (roundDown fromAddr)
      (patchLength fromAddr) (protRead ||| protExec)
    exact ⟨hbytes.trans (AddrSpace.bytes_patch _ _ _), rfl⟩

/-! ## What is there afterwards -/

/-- From `s` to `s'` a jump to `toAddr` has been written, through pages that were open as in `opened`
and are closed again. -/
structure Patched (s opened s' : AddrSpace) (fromAddr toAddr : Nat) : Prop where
  code : decodeCode 2 (ByteMem.bytes s'.bytes fromAddr 12) = some [.movRax toAddr, .jmpRax]
  frame : ∀ x, x < fromAddr ∨ fromAddr + 12 ≤ x → s'.bytes x = s.bytes x
  inside : ∀ x, fromAddr ≤ x → x < fromAddr + 12 → x ∈ patchPages fromAddr
  opened : ∀ x ∈ patchPages fromAddr,
    opened.protAt x = some (protRead ||| protWrite ||| protExec)
  closed : ∀ x ∈ patchPages fromAddr, s'.protAt x = some (protRead ||| protExec)

/-- When both calls of `mprotect` succeed, the jump is there. -/
theorem insertTrampoline_closed (hfrom : fromAddr ≠ 0) (hto : toAddr ≠ 0)
    (hword : toAddr < wordSize) (hopened : (k.openPages s fromAddr).1 = 0)
    (hclose : (k.closePages ((k.openPages s fromAddr).2.patch fromAddr toAddr) fromAddr).1 = 0) :
    ∃ s', insertTrampoline k s fromAddr toAddr = (0, s') ∧
      Patched s (k.openPages s fromAddr).2 s' fromAddr toAddr := by
  rcases insertTrampoline_cases k s fromAddr toAddr with
    ⟨hnot, _⟩ | ⟨hvalid, hmapped, hopen, hbytes, hrun⟩
  · rcases hnot with hnull | hnull | hfail
    · exact absurd hnull hfrom
    · exact absurd hnull hto
    · exact absurd hfail (by omega)
  · rcases Kernel.mprotect_ok hclose with ⟨hvalid', hmapped', hclosed⟩
    have hclosed : insertTrampoline k s fromAddr toAddr = (0, _) := hrun.trans hclosed
    rw [hclosed] at hbytes
    refine ⟨_, hclosed, ?_⟩
    have hlen : (trampoline toAddr).length = 12 := length_trampoline toAddr
    constructor
    · rw [hbytes, ← hlen, ByteMem.bytes_store]
      exact decodeCode_trampoline hword
    · intro x hx
      rw [hbytes]
      exact ByteMem.store_outside _ (by rwa [hlen])
    · exact fun x hlo hhi => mem_patchPages hlo hhi
    · intro x hx
      rw [hopen]
      exact AddrSpace.protAt_protect hvalid hmapped (by decide) hx.1
        (by rw [pagesUp_patchLength]; exact hx.2)
    · intro x hx
      exact AddrSpace.protAt_protect hvalid' hmapped' (by decide) hx.1
        (by rw [pagesUp_patchLength]; exact hx.2)

/-- A call that does not fail has written the jump. -/
theorem insertTrampoline_patched (hword : toAddr < wordSize)
    (h : ¬ (insertTrampoline k s fromAddr toAddr).1 < 0) :
    Patched s (k.openPages s fromAddr).2 (insertTrampoline k s fromAddr toAddr).2 fromAddr
      toAddr := by
  rcases insertTrampoline_cases k s fromAddr toAddr with
    ⟨_, hfailed, _⟩ | ⟨hvalid, _, hopen, _, hrun⟩
  · rw [hfailed] at h
    exact absurd (by decide : (-1 : Int) < 0) h
  · -- neither address is null, and the pages are closed again
    have hnull : ¬ (fromAddr = 0 ∨ toAddr = 0) := by
      intro hnull
      rw [insertTrampoline, if_pos hnull] at h
      exact absurd (by decide : (-1 : Int) < 0) h
    obtain ⟨hfrom, hto⟩ := not_or.1 hnull
    have hclose : (k.closePages ((k.openPages s fromAddr).2.patch fromAddr toAddr) fromAddr).1 =
        0 := by
      rw [hrun] at h
      unfold Kernel.closePages at h ⊢
      rcases k.mprotect_cases ((k.openPages s fromAddr).2.patch fromAddr toAddr)
        (roundDown fromAddr) (patchLength fromAddr) (protRead ||| protExec) with
        ⟨hfail, _⟩ | ⟨_, hok⟩
      · rw [hfail] at h
        exact absurd (by decide : (-1 : Int) < 0) h
      · rw [hok]
    obtain ⟨s', hok, hpatched⟩ := insertTrampoline_closed hfrom hto hword (by rw [hopen]) hclose
    rw [hok]
    exact hpatched

/-- The trampoline is exact; when the pages cannot be opened no byte has changed. -/
theorem insertTrampoline_exact (k : Kernel) (s : AddrSpace) {fromAddr toAddr : Nat}
    (hfrom : fromAddr ≠ 0) (hto : toAddr ≠ 0) (hword : toAddr < wordSize) :
    ((k.openPages s fromAddr).1 = 0 →
      (k.closePages ((k.openPages s fromAddr).2.patch fromAddr toAddr) fromAddr).1 = 0 →
        ∃ s', insertTrampoline k s fromAddr toAddr = (0, s') ∧
          Patched s (k.openPages s fromAddr).2 s' fromAddr toAddr) ∧
      ((k.openPages s fromAddr).1 < 0 → (insertTrampoline k s fromAddr toAddr).1 = -1 ∧
        Unpatched s (insertTrampoline k s fromAddr toAddr).2 fromAddr) := by
  refine ⟨insertTrampoline_closed hfrom hto hword, fun hfail => ?_⟩
  rcases insertTrampoline_cases k s fromAddr toAddr with ⟨_, hfailed⟩ | ⟨_, _, hopen, _⟩
  · exact hfailed
  · rw [hopen] at hfail
    exact absurd hfail (lt_irrefl 0)

/-- Two pages of code. -/
def codeSpace : AddrSpace :=
  emptySpace.mapFixed 0x10000 0x2000 (protRead ||| protExec) (by decide)

/-- A jump whose first six bytes end a page. -/
theorem insertTrampoline_exact_twoPages :
    ∃ s', insertTrampoline .plain codeSpace 0x10ffa 0x400000 = (0, s') ∧
      Patched codeSpace (Kernel.plain.openPages codeSpace 0x10ffa).2 s' 0x10ffa 0x400000 :=
  (insertTrampoline_exact .plain codeSpace (by decide) (by decide) (by decide)).1 (by decide +kernel)
    (by decide +kernel)

end CkptRestart
