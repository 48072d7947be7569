import CkptRestart.PatchLibc

/-!
# CustomLoader — loading the interpreter

`custom-loader.c`: the program headers of the file are read one after the other, each `PT_LOAD` segment
is mapped through `mmapWrapper`, and the symbols the kernel loader patches are looked up.

The loader keeps the record of its mappings, with what each of them returned.
-/

namespace CkptRestart

open Lib

/-! ## The state -/

/-- A call of `mmapWrapper`, made for the program header of this index, and what it returned. -/
structure MapEvent where
  header : Nat
  call : MmapCall
  ret : Nat
  deriving DecidableEq, Repr

/-- The memory, the statics of the wrapper and those of the loader. -/
structure Loader where
  space : AddrSpace
  table : MmapTable
  baseAddress : Nat
  firstTime : Bool
  /-- The header that is being loaded. -/
  header : Nat
  calls : List MapEvent

def Loader.start (space : AddrSpace) (table : MmapTable) : Loader where
  space := space
  table := table
  baseAddress := 0
  firstTime := true
  header := 0
  calls := []

/-- What the loader finds around it. -/
structure LoaderEnv where
  /-- The kernel as it is at the `n`-th call. -/
  kernels : Nat → Kernel
  files : List UInt8 → Option (List UInt8)
  lhInfo : LowerHalfInfo
  /-- `atoi(getenv("RANK_ID"))` -/
  rankId : Int
  ldSoFd : Int
  /-- What `/proc/self/fd/<fd>` points to. -/
  link : Option (List UInt8)
  /-- What local variables hold before they are set. -/
  junk : Elf64Shdr
  /-- What stands behind `elf_interpreter` on the stack, up to a null byte. -/
  behind : List UInt8

structure DynObjInfo where
  baseAddr : Nat
  entryPoint : Nat
  phnum : Nat
  phdr : Nat
  mmapAddr : Nat
  sbrkAddr : Nat
  deriving DecidableEq, Repr

def DynObjInfo.zero : DynObjInfo := ⟨0, 0, 0, 0, 0, 0⟩

/-! ## Mapping a segment -/

def AddrSpace.writable (s : AddrSpace) (x : Nat) : Bool :=
  match s.protAt x with
  | some prot => decide (prot &&& protWrite ≠ 0)
  | none => false

/-- `memset(addr, 0, n)`, which ends the process if one of the bytes cannot be written. -/
def AddrSpace.clear (s : AddrSpace) (addr n : Nat) : Exec AddrSpace :=
  if (List.range n).all fun i => s.writable (addr + i) then
    pure (s.store addr (List.replicate n 0))
  else .exited

section Loading

variable (env : LoaderEnv) (content : List UInt8)

/-- The answer of `mmap` to a call that the wrapper lets through. -/
def LoaderEnv.mmap (n : Nat) (s : AddrSpace) (c : MmapCall) : MmapWorld × AddrSpace :=
  if c.offset &&& mmapOffMask ≠ 0 then (⟨mapFailed, .EINVAL, none⟩, s)
  else if c.flags &&& mapAnonymous ≠ 0 then (env.kernels n).mmapFixed s c
  else (env.kernels n).mmapFile content env.link s c

/-- `mmapWrapper` on the memory, with the call of `patchLibc` that it makes. -/
def Loader.mmapWrapper (c : MmapCall) (ld : Loader) : Exec (Nat × Loader) :=
  let n := ld.calls.length
  let answer := env.mmap content n ld.space c
  let out := CkptRestart.mmapWrapper ld.table c answer.1
  let ld := { ld with
    space := answer.2
    table := out.table
    calls := ld.calls ++ [⟨ld.header, c, out.ret⟩] }
  match out.patch with
  | none => pure (out.ret, ld)
  | some (fd, base, glibc) => do
      let space ← patchLibc (env.kernels n) env.files env.junk env.lhInfo ld.space fd base glibc
      pure (out.ret, { ld with space := space })

/-- Where the first segment of a rank goes. -/
def loadBase (rankId : Int) : Nat :=
  let size4GB : Nat := 2 ^ 32
  let ldSoOffset := 3 * size4GB / 4
  wrap (size4GB + toUnsigned (size4GB * rankId) + ldSoOffset)

def segmentProt (pFlags : Nat) : Nat :=
  (if pFlags &&& pfR ≠ 0 then protRead else 0) |||
    (if pFlags &&& pfW ≠ 0 then protWrite else 0) |||
      (if pFlags &&& pfX ≠ 0 then protExec else 0)

/-- The call that maps what the file has of a segment. -/
def fileCall (fd : Int) (baseAddress : Nat) (phdr : Elf64Phdr) : MmapCall where
  -- the address of the segment goes through an `int`
  addr := roundDown (toUnsigned (baseAddress + toInt32 phdr.pVaddr))
  length := roundUp (phdr.pFilesz + pageOffset phdr.pVaddr)
  prot := segmentProt phdr.pFlags
  flags := mapPrivate ||| mapFixed
  fd := fd
  offset := toUnsigned ((phdr.pOffset : Int) - pageOffset phdr.pVaddr)

/-- The call that maps the pages behind what the file has. -/
def bssCall (startBss endBss : Nat) (phdr : Elf64Phdr) : MmapCall where
  addr := startBss
  length := endBss - startBss
  prot := segmentProt phdr.pFlags
  flags := mapPrivate ||| mapFixed ||| mapAnonymous
  fd := -1
  offset := 0

/-- The first segment of a rank goes to a fixed place. -/
def Loader.setBase (rankId : Int) (ld : Loader) : Loader :=
  if ld.firstTime then { ld with baseAddress := loadBase rankId } else ld

/-- The `memset` from the end of what the file has to the end of its page. -/
def Loader.clearBss (phdr : Elf64Phdr) (startBss : Nat) (ld : Loader) : Exec Loader :=
  if phdr.pMemsz > phdr.pFilesz then do
    let space ← ld.space.clear startBss (toUnsigned ((roundUp startBss : Int) - startBss))
    pure { ld with space := space }
  else pure ld

/-- The second mapping, if there are pages left; `rc2` is the result of the first. -/
def Loader.mapBss (phdr : Elf64Phdr) (startBss endBss rc2 : Nat) (ld : Loader) :
    Exec (Nat × Loader) :=
  if endBss > startBss then ld.mmapWrapper env content (bssCall startBss endBss phdr)
  else pure (rc2, ld)

/-- The base is what the last mapping of the first segment returned. -/
def Loader.fixBase (rc2 : Nat) (ld : Loader) : Loader :=
  if ld.firstTime then { ld with firstTime := false, baseAddress := rc2 } else ld

/-- `map_elf_interpreter_load_segment`, whose `ld_so_addr` is null. -/
def mapElfInterpreterLoadSegment (phdr : Elf64Phdr) (ld : Loader) : Exec (Nat × Loader) :=
  if phdr.pMemsz < phdr.pFilesz then .exited
  else if phdr.pAlign > 1 ∧ phdr.pVaddr % phdr.pAlign ≠ phdr.pOffset % phdr.pAlign then .exited
  else do
    let ld := ld.setBase env.rankId
    let (rc2, ld) ← ld.mmapWrapper env content (fileCall env.ldSoFd ld.baseAddress phdr)
    if rc2 = mapFailed then pure (0, ld)
    else do
      let startBss := wrap (ld.baseAddress + phdr.pVaddr + phdr.pFilesz)
      let endBss := wrap (ld.baseAddress + phdr.pVaddr + phdr.pMemsz)
      let ld ← ld.clearBss phdr startBss
      let (rc2, ld) ← ld.mapBss env content phdr (roundUp startBss) (roundUp endBss) rc2
      if rc2 = mapFailed then pure (0, ld)
      else
        let ld := ld.fixBase rc2
        pure (ld.baseAddress, ld)

end Loading

/-! ## Loading a file -/

/-- The variables of `load_elf_interpreter`: the descriptor, `firstTime` and `baseAddr`. -/
structure HeaderLoop where
  fd : FileDesc
  firstTime : Bool
  baseAddr : Nat
  loader : Loader

section Loading

variable (env : LoaderEnv)

/-- A round of the loop for a `PT_LOAD` header; only the first result is kept. -/
def loadSegment (content : List UInt8) (phdr : Elf64Phdr) (st : HeaderLoop) : Exec HeaderLoop := do
  let (rc, ld) ← mapElfInterpreterLoadSegment env content phdr st.loader
  pure { st with
    firstTime := false
    baseAddr := if st.firstTime then rc else st.baseAddr
    loader := ld }

/-- The body of the loop over the program headers. -/
def loadHeader (st : HeaderLoop) (i : Nat) : Exec HeaderLoop :=
  let (buf, fd) := st.fd.read phdrSize
  if buf.length ≠ phdrSize then .exited
  else
    let phdr := decodePhdr buf
    if phdr.pType = ptLoad then
      loadSegment env fd.content phdr { st with fd := fd, loader := { st.loader with header := i } }
    else pure { st with fd := fd }

/-- `load_elf_interpreter`: its result, `*ld_so_entry` and `*info`. -/
def loadElfInterpreter (content : List UInt8) (info : DynObjInfo) (ld : Loader) :
    Exec (Nat × Nat × DynObjInfo × Loader) :=
  let (eIdent, fd) := (⟨content, 0⟩ : FileDesc).read eiNident
  if eIdent.length ≠ eiNident then .exited
  else if slice eIdent 0 elfMag.length ≠ elfMag ∨ eIdent.getD eiClass 0 ≠ elfClass64 then .exited
  else
    let (buf, fd) := (fd.lseek 0).2.read ehdrSize
    if buf.length ≠ ehdrSize then .exited
    else do
      let elfHdr := decodeEhdr buf
      -- the offset of the headers goes through an `int`
      let fd := (fd.lseek (toUnsigned (toInt32 elfHdr.ePhoff))).2
      let st ← Exec.steps (loadHeader env) (List.range elfHdr.ePhnum) ⟨fd, true, 0, ld⟩
      pure (st.baseAddr, elfHdr.eEntry,
        { info with phnum := elfHdr.ePhnum, phdr := wrap (st.baseAddr + elfHdr.ePhoff) }, st.loader)

def maxElfInterpSz : Nat := 256

/-- The path in `elf_interpreter` after the `strncpy`, which leaves no null byte behind a name as long
as the array. -/
def LoaderEnv.elfInterpreter (name : List UInt8) : List UInt8 :=
  if name.length < maxElfInterpSz then name else name.take maxElfInterpSz ++ env.behind

/-- `safeLoadLib` -/
def safeLoadLib (name : List UInt8) (ld : Loader) : Exec (DynObjInfo × Loader) :=
  match env.files (env.elfInterpreter name) with
  -- the read from a descriptor of -1 fails its assertion
  | none => .exited
  | some content => do
      let (baseAddr, ldSoEntry, info, ld) ← loadElfInterpreter env content .zero ld
      let info := { info with baseAddr := baseAddr }
      let mmapOffset ← getSymbolOffset env.files env.junk name mmapSymbolName
      let sbrkOffset ← getSymbolOffset env.files env.junk name sbrkSymbolName
      let info :=
        if mmapOffset = -1 ∨ sbrkOffset = -1 then info
        else { info with
          mmapAddr := toUnsigned (baseAddr + mmapOffset)
          sbrkAddr := toUnsigned (baseAddr + sbrkOffset) }
      pure ({ info with entryPoint := wrap (baseAddr + ldSoEntry) }, ld)

end Loading

/-! ## What a mapping comes to -/

section Calls

variable {env : LoaderEnv} {content : List UInt8}

/-- A mapping fails, and may have removed what was in its place, or is made where it was asked for. -/
theorem LoaderEnv.mmap_cases (env : LoaderEnv) (content : List UInt8) (n : Nat) (s : AddrSpace)
    (c : MmapCall) :
    ((env.mmap content n s c).1.ret = mapFailed ∧
      AddrSpace.Partly (fun _ => none) s c.addr c.length (env.mmap content n s c).2 ∧
      ¬ (c.offset &&& mmapOffMask = 0 ∧ (env.kernels n).Grants s c)) ∨
    (c.offset &&& mmapOffMask = 0 ∧ (env.mmap content n s c).1.ret = c.addr ∧
      (env.kernels n).refusesMmap s c = none ∧ ∃ h : ValidRange c.addr c.length,
        (env.mmap content n s c).2 =
          if c.flags &&& mapAnonymous ≠ 0 then s.mapFixed c.addr c.length c.prot h
          else (s.mapFixed c.addr c.length c.prot h).store c.addr
            (slice content c.offset (pagesUp c.length))) := by
  by_cases hoff : c.offset &&& mmapOffMask = 0
  · cases hrefuse : (env.kernels n).refusesMmap s c with
    | some e =>
        left
        have hpartly := ((env.kernels n).failedMmap s c).2
        by_cases hanon : c.flags &&& mapAnonymous = 0 <;>
          simp [LoaderEnv.mmap, Kernel.mmapFixed, Kernel.mmapFile, Kernel.Grants, hoff, hanon, hrefuse,
            hpartly]
    | none =>
        by_cases h : ValidRange c.addr c.length
        · right
          by_cases hanon : c.flags &&& mapAnonymous = 0 <;>
            simp [LoaderEnv.mmap, Kernel.mmapFixed, Kernel.mmapFile, hoff, hanon, hrefuse, h]
        · left
          by_cases hanon : c.flags &&& mapAnonymous = 0 <;>
            simp [LoaderEnv.mmap, Kernel.mmapFixed, Kernel.mmapFile, Kernel.Grants, hoff, hanon,
              hrefuse, h, AddrSpace.Partly.refl]
  · left
    simp [LoaderEnv.mmap, hoff, AddrSpace.Partly.refl]

/-- A call is recorded with its result, and leaves the statics of the loader. -/
theorem Loader.mmapWrapper_ok {c : MmapCall} {ld ld' : Loader} {ret : Nat}
    (h : ld.mmapWrapper env content c = .ok (ret, ld')) :
    ld'.calls = ld.calls ++ [⟨ld.header, c, ret⟩] ∧ ld'.header = ld.header ∧
      ld'.baseAddress = ld.baseAddress ∧ ld'.firstTime = ld.firstTime ∧
      ret = (CkptRestart.mmapWrapper ld.table c
        (env.mmap content ld.calls.length ld.space c).1).ret := by
  simp only [Loader.mmapWrapper] at h
  split at h
  · cases h
    exact ⟨rfl, rfl, rfl, rfl, rfl⟩
  · rcases Exec.bind_eq_ok_iff.1 h with ⟨space, _, hret⟩
    cases hret
    exact ⟨rfl, rfl, rfl, rfl, rfl⟩

@[simp] theorem Loader.calls_setBase (rankId : Int) (ld : Loader) :
    (ld.setBase rankId).calls = ld.calls := by
  unfold Loader.setBase
  split <;> rfl

@[simp] theorem Loader.header_setBase (rankId : Int) (ld : Loader) :
    (ld.setBase rankId).header = ld.header := by
  unfold Loader.setBase
  split <;> rfl

@[simp] theorem Loader.firstTime_setBase (rankId : Int) (ld : Loader) :
    (ld.setBase rankId).firstTime = ld.firstTime := by
  unfold Loader.setBase
  split <;> rfl

@[simp] theorem Loader.space_setBase (rankId : Int) (ld : Loader) :
    (ld.setBase rankId).space = ld.space := by
  unfold Loader.setBase
  split <;> rfl

@[simp] theorem Loader.calls_fixBase (rc2 : Nat) (ld : Loader) :
    (ld.fixBase rc2).calls = ld.calls := by
  unfold Loader.fixBase
  split <;> rfl

@[simp] theorem Loader.space_fixBase (rc2 : Nat) (ld : Loader) :
    (ld.fixBase rc2).space = ld.space := by
  unfold Loader.fixBase
  split <;> rfl

@[simp] theorem Loader.firstTime_fixBase (rc2 : Nat) (ld : Loader) :
    (ld.fixBase rc2).firstTime = false := by
  unfold Loader.fixBase
  split
  · rfl
  · simpa using ‹¬ ld.firstTime = true›

theorem Loader.baseAddress_fixBase (rc2 : Nat) (ld : Loader) :
    (ld.fixBase rc2).baseAddress = if ld.firstTime then rc2 else ld.baseAddress := by
  unfold Loader.fixBase
  split <;> rfl

/-- The `memset` changes nothing but the memory. -/
theorem Loader.clearBss_ok {phdr : Elf64Phdr} {startBss : Nat} {ld ld' : Loader}
    (h : ld.clearBss phdr startBss = .ok ld') : ∃ space, ld' = { ld with space := space } := by
  unfold Loader.clearBss at h
  split at h
  · rcases Exec.bind_eq_ok_iff.1 h with ⟨space, _, hret⟩
    cases hret
    exact ⟨space, rfl⟩
  · cases h
    exact ⟨ld.space, rfl⟩

end Calls

/-! ## A file with two segments -/

def phdrBytes (flags off vaddr filesz memsz : Nat) : List UInt8 :=
  putWord 4 ptLoad ++ putWord 4 flags ++ putWord 8 off ++ putWord 8 vaddr ++ putWord 8 vaddr ++
    putWord 8 filesz ++ putWord 8 memsz ++ putWord 8 pageSize

/-- A shared object with a segment of code at the given address and one of data in the next page,
which defines `sbrk` and refers to `mmap`. -/
def smallLd (vaddr : Nat) : List UInt8 :=
  elfMag ++ [elfClass64, 1, 1, 0] ++ putWord 8 0 ++
    putWord 2 3 ++ putWord 2 62 ++ putWord 4 1 ++ putWord 8 0 ++ putWord 8 64 ++ putWord 8 176 ++
    putWord 4 0 ++ putWord 2 64 ++ putWord 2 56 ++ putWord 2 2 ++ putWord 2 64 ++ putWord 2 3 ++
    putWord 2 2 ++
  phdrBytes (pfR ||| pfX) 0 vaddr 467 467 ++ phdrBytes (pfR ||| pfW) 0 (vaddr + pageSize) 467 467 ++
  shdrBytes 0 0 0 0 ++ shdrBytes 1 shtSymtab 395 72 ++ shdrBytes 9 shtStrtab 368 27 ++
  smallLibNames ++
  symBytes 0 shnUndef 0 ++ symBytes 17 shnUndef 0 ++ symBytes 22 7 0x100

/-- The process of rank 0 that loads a file of the given contents. -/
def smallEnv (kernels : Nat → Kernel) (content : List UInt8) : LoaderEnv where
  kernels := kernels
  files := fun name => if name = smallLibName then some content else none
  lhInfo := ⟨0x1000, 0x2000, 0x3000, 0, 0x4000⟩
  rankId := 0
  ldSoFd := 3
  link := some smallLibName
  junk := zeroShdr
  behind := []

end CkptRestart
