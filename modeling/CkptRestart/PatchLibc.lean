import CkptRestart.AddressSpace
import CkptRestart.TrampolineSetup

/-!
# PatchLibc — mappings of files, and trampolines

`mmap` of a file, `insert_trampoline` of `trampoline_setup.c`, and `patchLibc` of `mmap-wrapper.c`,
which the wrapper calls when a file with `libc-` in its path is mapped to be executed.
-/

namespace CkptRestart

open Lib

/-! ## Files in memory -/

/-- `mmap` with `MAP_FIXED | MAP_PRIVATE` of a file: the pages show what is in the file from the
offset on, and zeros where the file has ended. -/
def Kernel.mmapFile (k : Kernel) (content : List UInt8) (link : Option (List UInt8))
    (s : AddrSpace) (c : MmapCall) : MmapWorld × AddrSpace :=
  match k.refusesMmap s c with
  | some e => (⟨mapFailed, e, link⟩, k.failedMmap s c)
  | none =>
      if h : ValidRange c.addr c.length then
        (⟨c.addr, .EINVAL, link⟩,
          (s.mapFixed c.addr c.length c.prot h).store c.addr
            (slice content c.offset (pagesUp c.length)))
      else (⟨mapFailed, .EINVAL, link⟩, s)

theorem Kernel.link_mmapFile (k : Kernel) (content : List UInt8) (link : Option (List UInt8))
    (s : AddrSpace) (c : MmapCall) : (k.mmapFile content link s c).1.link = link := by
  unfold Kernel.mmapFile
  cases k.refusesMmap s c with
  | some e => rfl
  | none => by_cases h : ValidRange c.addr c.length <;> simp [h]

/-! ## Trampolines -/

/-- `mov $0x1234567812345678, %rax` and `jmpq *%rax` -/
def asmJump : List UInt8 :=
  [0x48, 0xb8, 0x78, 0x56, 0x34, 0x12, 0x78, 0x56, 0x34, 0x12, 0xff, 0xe0]

/-- Where the address begins in `asmJump`. -/
def addrOffset : Nat := 2

def insertTrampoline (k : Kernel) (s : AddrSpace) (fromAddr toAddr : Nat) : Int × AddrSpace :=
  if fromAddr = 0 ∨ toAddr = 0 then (-1, s)
  else
    let pageBase := roundDown fromAddr
    -- the instructions may cross into the next page
    let pageLength :=
      if toUnsigned ((wrap (fromAddr + asmJump.length) : Int) - pageBase) > pageSize then
        2 * pageSize
      else pageSize
    let (rc, s) := k.mprotect s pageBase pageLength (protRead ||| protWrite ||| protExec)
    if rc < 0 then (-1, s)
    else
      let s := s.store fromAddr asmJump
      let s := s.store (fromAddr + addrOffset) (putWord 8 toAddr)
      let (rc, s) := k.mprotect s pageBase pageLength (protRead ||| protExec)
      if rc < 0 then (-1, s) else (rc, s)

/-- `patchLibc`; the results of the two insertions are not looked at. -/
def patchLibc (k : Kernel) (files : List UInt8 → Option (List UInt8)) (junk : Elf64Shdr)
    (lhInfo : LowerHalfInfo) (s : AddrSpace) (fd : Int) (base : Nat) (glibc : List UInt8) :
    Exec AddrSpace :=
  if base = 0 ∨ ¬ fd > 0 then .exited
  else do
    let mmapOffset ← getSymbolOffset files junk glibc mmapSymbolName
    let sbrkOffset ← getSymbolOffset files junk glibc sbrkSymbolName
    if mmapOffset = -1 ∨ sbrkOffset = -1 then pure s
    else
      let s := (insertTrampoline k s (toUnsigned (base + mmapOffset)) lhInfo.lhMmap).2
      let s := (insertTrampoline k s (toUnsigned (base + sbrkOffset)) lhInfo.lhSbrk).2
      pure s

end CkptRestart
