import CkptRestart.Common
import CkptRestart.Lib.Bytes

/-!
# Elf — ELF64 files

The structures of `elf.h` that the loader and the search for symbols look at, as they lie in a file,
and the calls on a descriptor that is open on a regular file.  Of a regular file a call of `read` gets
all that it asks for, as far as it is there.
-/

namespace CkptRestart

open Lib

/-! ## Structures -/

def ehdrSize : Nat := 64
def phdrSize : Nat := 56
def shdrSize : Nat := 64
def symSize : Nat := 24

def elfMag : List UInt8 := 0x7f :: cstr ['E', 'L', 'F']

def eiNident : Nat := 16
def eiClass : Nat := 4
def elfClass64 : UInt8 := 2

def ptLoad : Nat := 1

def pfX : Nat := 1
def pfW : Nat := 2
def pfR : Nat := 4

structure Elf64Ehdr where
  eIdent : List UInt8
  eEntry : Nat
  ePhoff : Nat
  eShoff : Nat
  ePhnum : Nat
  eShentsize : Nat
  eShnum : Nat
  eShstrndx : Nat
  deriving DecidableEq, Repr

structure Elf64Phdr where
  pType : Nat
  pFlags : Nat
  pOffset : Nat
  pVaddr : Nat
  pFilesz : Nat
  pMemsz : Nat
  pAlign : Nat
  deriving DecidableEq, Repr

structure Elf64Shdr where
  shName : Nat
  shType : Nat
  shOffset : Nat
  shSize : Nat
  deriving DecidableEq, Repr

structure Elf64Sym where
  stName : Nat
  stShndx : Nat
  stValue : Nat
  deriving DecidableEq, Repr

def decodeEhdr (buf : List UInt8) : Elf64Ehdr where
  eIdent := slice buf 0 eiNident
  eEntry := wordAt 8 24 buf
  ePhoff := wordAt 8 32 buf
  eShoff := wordAt 8 40 buf
  ePhnum := wordAt 2 56 buf
  eShentsize := wordAt 2 58 buf
  eShnum := wordAt 2 60 buf
  eShstrndx := wordAt 2 62 buf

def decodePhdr (buf : List UInt8) : Elf64Phdr where
  pType := wordAt 4 0 buf
  pFlags := wordAt 4 4 buf
  pOffset := wordAt 8 8 buf
  pVaddr := wordAt 8 16 buf
  pFilesz := wordAt 8 32 buf
  pMemsz := wordAt 8 40 buf
  pAlign := wordAt 8 48 buf

def decodeShdr (buf : List UInt8) : Elf64Shdr where
  shName := wordAt 4 0 buf
  shType := wordAt 4 4 buf
  shOffset := wordAt 8 24 buf
  shSize := wordAt 8 32 buf

def decodeSym (buf : List UInt8) : Elf64Sym where
  stName := wordAt 4 0 buf
  stShndx := wordAt 2 6 buf
  stValue := wordAt 8 8 buf

def shtProgbits : Nat := 1
def shtSymtab : Nat := 2
def shtStrtab : Nat := 3
def shnUndef : Nat := 0

/-! ## Descriptors -/

/-- A descriptor open on a regular file: its contents and the offset. -/
structure FileDesc where
  content : List UInt8
  pos : Nat
  deriving DecidableEq, Repr

namespace FileDesc

/-- `lseek(fd, off, SEEK_SET)`; an offset that is negative as an `off_t` is refused. -/
def lseek (fd : FileDesc) (off : Nat) : Int × FileDesc :=
  if off < 2 ^ 63 then (off, { fd with pos := off }) else (-1, fd)

def read (fd : FileDesc) (n : Nat) : List UInt8 × FileDesc :=
  (slice fd.content fd.pos n, { fd with pos := fd.pos + (slice fd.content fd.pos n).length })

theorem lseek_of_lt (fd : FileDesc) {off : Nat} (h : off < 2 ^ 63) :
    fd.lseek off = ((off : Int), ⟨fd.content, off⟩) := if_pos h

/-- A read of bytes that are there. -/
theorem read_of_le {fd : FileDesc} {n : Nat} (h : fd.pos + n ≤ fd.content.length) :
    fd.read n = (slice fd.content fd.pos n, ⟨fd.content, fd.pos + n⟩) := by
  rw [read, length_slice h]

end FileDesc

end CkptRestart
