import CkptRestart.CustomLoader.Image
import CkptRestart.PatchLibc.Trampoline
import CkptRestart.TrampolineSetup.DebugLink

/-!
# LoadBase — where the trampolines in libc go

`patchLibc` adds the value of a symbol to the address at which one segment of the library has been
mapped.  The value is an offset from the load base of the whole library, which is the address of that
segment only if the segment is linked at zero.

`patchLibcWrites` is `patchLibc` once more, with the list of its trampolines; `inPlace_iff` says when
these are at the functions.
-/

namespace CkptRestart

open Lib

/-! ## The trampolines of a call -/

structure TrampolineWrite where
  symbol : List UInt8
  fromAddr : Nat
  toAddr : Nat
  deriving DecidableEq, Repr

/-- The trampoline that a call of `insertTrampoline` for a function writes, if any. -/
def trampolineWrite (k : Kernel) (s : AddrSpace) (symbol : List UInt8) (fromAddr toAddr : Nat) :
    List TrampolineWrite :=
  if fromAddr = 0 ∨ toAddr = 0 ∨ (k.openPages s fromAddr).1 < 0 then []
  else [⟨symbol, fromAddr, toAddr⟩]

def patchLibcWrites (k : Kernel) (files : List UInt8 → Option (List UInt8)) (junk : Elf64Shdr)
    (lhInfo : LowerHalfInfo) (s : AddrSpace) (fd : Int) (base : Nat) (glibc : List UInt8) :
    Exec (List TrampolineWrite) :=
  if base = 0 ∨ ¬ fd > 0 then .exited
  else do
    let mmapOffset ← getSymbolOffset files junk glibc mmapSymbolName
    let sbrkOffset ← getSymbolOffset files junk glibc sbrkSymbolName
    if mmapOffset = -1 ∨ sbrkOffset = -1 then pure []
    else
      let mmapAddr := toUnsigned (base + mmapOffset)
      let sbrkAddr := toUnsigned (base + sbrkOffset)
      let s₁ := (insertTrampoline k s mmapAddr lhInfo.lhMmap).2
      pure (trampolineWrite k s mmapSymbolName mmapAddr lhInfo.lhMmap ++
        trampolineWrite k s₁ sbrkSymbolName sbrkAddr lhInfo.lhSbrk)

/-- The memory after trampolines were written. -/
def writeTrampolines (m : ByteMem) (ws : List TrampolineWrite) : ByteMem :=
  ws.foldl (fun m w => m.store w.fromAddr (trampoline w.toAddr)) m

theorem bytes_insertTrampoline (k : Kernel) (s : AddrSpace) (symbol : List UInt8)
    (fromAddr toAddr : Nat) :
    (insertTrampoline k s fromAddr toAddr).2.bytes =
      writeTrampolines s.bytes (trampolineWrite k s symbol fromAddr toAddr) := by
  rcases insertTrampoline_cases k s fromAddr toAddr with
    ⟨hnot, _, hunpatched⟩ | ⟨_, _, hopen, hbytes, hrun⟩
  · rw [hunpatched.bytes, trampolineWrite, if_pos hnot]
    rfl
  · by_cases hnull : fromAddr = 0 ∨ toAddr = 0 ∨ (k.openPages s fromAddr).1 < 0
    · -- a null pointer is refused although the pages could be opened
      rw [trampolineWrite, if_pos hnull]
      have hnull' : fromAddr = 0 ∨ toAddr = 0 := by
        rcases hnull with h | h | h
        · exact .inl h
        · exact .inr h
        · exact absurd h (by simp [hopen])
      rw [insertTrampoline, if_pos hnull']
      rfl
    · rw [hbytes, trampolineWrite, if_neg hnull]
      rfl

/-- `patchLibc` changes the memory by these trampolines. -/
theorem bytes_patchLibc (k : Kernel) (files : List UInt8 → Option (List UInt8)) (junk : Elf64Shdr)
    (lhInfo : LowerHalfInfo) (s : AddrSpace) (fd : Int) (base : Nat) (glibc : List UInt8) :
    (patchLibc k files junk lhInfo s fd base glibc >>= fun s' => .ok s'.bytes) =
      (patchLibcWrites k files junk lhInfo s fd base glibc >>=
        fun ws => .ok (writeTrampolines s.bytes ws)) := by
  unfold patchLibc patchLibcWrites
  split
  · rfl
  · cases getSymbolOffset files junk glibc mmapSymbolName with
    | running => rfl
    | exited => rfl
    | ok mmapOffset =>
        cases getSymbolOffset files junk glibc sbrkSymbolName with
        | running => rfl
        | exited => rfl
        | ok sbrkOffset =>
            simp only [Exec.ok_bind]
            split
            · rfl
            · simp only [Exec.pure_eq, Exec.ok_bind]
              rw [bytes_insertTrampoline k _ sbrkSymbolName,
                bytes_insertTrampoline k s mmapSymbolName]
              simp only [writeTrampolines, List.foldl_append]

theorem patchLibcWrites_of_patchLibc {k : Kernel} {files : List UInt8 → Option (List UInt8)}
    {junk : Elf64Shdr} {lhInfo : LowerHalfInfo} {s s' : AddrSpace} {fd : Int} {base : Nat}
    {glibc : List UInt8} (h : patchLibc k files junk lhInfo s fd base glibc = .ok s') :
    ∃ ws, patchLibcWrites k files junk lhInfo s fd base glibc = .ok ws ∧
      s'.bytes = writeTrampolines s.bytes ws := by
  have hbytes := bytes_patchLibc k files junk lhInfo s fd base glibc
  rw [h, Exec.ok_bind] at hbytes
  obtain ⟨ws, hws, heq⟩ := Exec.bind_eq_ok_iff.1 hbytes.symm
  exact ⟨ws, hws, (Exec.ok.inj heq).symm⟩

theorem patchLibc_of_patchLibcWrites {k : Kernel} {files : List UInt8 → Option (List UInt8)}
    {junk : Elf64Shdr} {lhInfo : LowerHalfInfo} {s : AddrSpace} {fd : Int} {base : Nat}
    {glibc : List UInt8} {ws : List TrampolineWrite}
    (h : patchLibcWrites k files junk lhInfo s fd base glibc = .ok ws) :
    ∃ s', patchLibc k files junk lhInfo s fd base glibc = .ok s' := by
  have hbytes := bytes_patchLibc k files junk lhInfo s fd base glibc
  rw [h, Exec.ok_bind] at hbytes
  obtain ⟨s', hs', _⟩ := Exec.bind_eq_ok_iff.1 hbytes
  exact ⟨s', hs'⟩

/-! ## The library -/

/-- The functions that are patched are defined in the table, each with one value. -/
def Exports (table : List UInt8) (sym str : Nat) (value : List UInt8 → Nat) : Prop :=
  ∀ symbol ∈ [mmapSymbolName, sbrkSymbolName], ∀ e ∈ elfSymbols table sym,
    symbolName table str e = some symbol → e.stShndx ≠ shnUndef ∧ e.stValue = value symbol

/-- The call maps a segment of the library, to be executed, where the load base `base` puts it. -/
structure MapsCode (content : List UInt8) (base : Nat) (phdr : Elf64Phdr) (c : MmapCall)
    (w : MmapWorld) : Prop where
  segment : phdr ∈ loadSegments content
  aligned : PageAligned phdr.pOffset ∧ PageAligned phdr.pVaddr
  offset : c.offset = phdr.pOffset
  exec : c.prot &&& protExec ≠ 0
  ret : w.ret = wrap (base + phdr.pVaddr)
  valid : ValidRange w.ret c.length

/-- The trampoline is at the first byte of its function, in the range that has just been mapped. -/
structure InPlace (base ret length : Nat) (value : List UInt8 → Nat) (t : TrampolineWrite) :
    Prop where
  atFunction : t.fromAddr = wrap (base + value t.symbol)
  start : ret ≤ t.fromAddr
  stop : t.fromAddr + asmJump.length ≤ ret + pagesUp length

section Library

variable {files : List UInt8 → Option (List UInt8)} {glibc content table : List UInt8}
  {sym str : Nat} {value : List UInt8 → Nat}

/-- A symbol that is found has the value of its function. -/
theorem lookup_eq (hsymbols : SymbolsIn files glibc content table sym str)
    (hexports : Exports table sym str value) (junk : Elf64Shdr) {symbol : List UInt8}
    (hsymbol : symbol ∈ [mmapSymbolName, sbrkSymbolName]) :
    ∃ ret, getSymbolOffset files junk glibc symbol = .ok ret ∧
      (ret ≠ -1 → ret = toSigned (value symbol) ∧ value symbol < wordSize) := by
  refine ⟨_, hsymbols.getSymbolOffset junk symbol, fun hne => ?_⟩
  cases hfind : (elfSymbols table sym).find? (named table str symbol) with
  | none =>
      rw [hfind] at hne
      exact absurd rfl hne
  | some e =>
      have hmem := List.mem_of_find?_eq_some hfind
      have hname : symbolName table str e = some symbol := by
        have hnamed := List.find?_some hfind
        simpa [named] using hnamed
      obtain ⟨_, hvalue⟩ := hexports symbol hsymbol e hmem hname
      rw [← hvalue]
      exact ⟨rfl, stValue_lt hmem⟩

theorem toUnsigned_add_toSigned (base : Nat) {v : Nat} (hv : v < wordSize) :
    toUnsigned (base + toSigned v) = wrap (base + v) := by
  have hwrap := wrap_of_lt hv
  unfold toSigned
  rw [hwrap]
  unfold toUnsigned wrap wordSize at *
  split <;> omega

theorem mem_trampolineWrite {k : Kernel} {s : AddrSpace} {symbol : List UInt8}
    {fromAddr toAddr : Nat} {t : TrampolineWrite}
    (h : t ∈ trampolineWrite k s symbol fromAddr toAddr) : t = ⟨symbol, fromAddr, toAddr⟩ := by
  unfold trampolineWrite at h
  split at h
  · cases h
  · exact List.mem_singleton.1 h

/-- The values are added to the address of the segment. -/
theorem fromAddr_of_mem (hsymbols : SymbolsIn files glibc content table sym str)
    (hexports : Exports table sym str value) {k : Kernel} {junk : Elf64Shdr}
    {lhInfo : LowerHalfInfo} {s : AddrSpace} {fd : Int} {ret : Nat} {ws : List TrampolineWrite}
    (hrun : patchLibcWrites k files junk lhInfo s fd ret glibc = .ok ws) {t : TrampolineWrite}
    (ht : t ∈ ws) :
    t.fromAddr = wrap (ret + value t.symbol) ∧ value t.symbol < wordSize := by
  have hmmapName : mmapSymbolName ∈ [mmapSymbolName, sbrkSymbolName] := by simp
  have hsbrkName : sbrkSymbolName ∈ [mmapSymbolName, sbrkSymbolName] := by simp
  rcases lookup_eq hsymbols hexports junk hmmapName with ⟨mmapOffset, hmmap, hmmapValue⟩
  rcases lookup_eq hsymbols hexports junk hsbrkName with ⟨sbrkOffset, hsbrk, hsbrkValue⟩
  unfold patchLibcWrites at hrun
  split at hrun
  · cases hrun
  · rw [hmmap, hsbrk] at hrun
    simp only [Exec.ok_bind] at hrun
    split at hrun
    · cases hrun
      cases ht
    · rename_i hfound
      obtain ⟨hmmapFound, hsbrkFound⟩ := not_or.1 hfound
      rcases hmmapValue hmmapFound with ⟨rfl, hmmapWord⟩
      rcases hsbrkValue hsbrkFound with ⟨rfl, hsbrkWord⟩
      cases hrun
      rcases List.mem_append.1 ht with h | h
      · rw [mem_trampolineWrite h]
        exact ⟨toUnsigned_add_toSigned ret hmmapWord, hmmapWord⟩
      · rw [mem_trampolineWrite h]
        exact ⟨toUnsigned_add_toSigned ret hsbrkWord, hsbrkWord⟩

end Library

/-! ## Where the trampolines are -/

theorem pVaddr_lt {content : List UInt8} {phdr : Elf64Phdr} (h : phdr ∈ loadSegments content) :
    phdr.pVaddr < wordSize := by
  rcases List.mem_map.1 (List.mem_of_mem_filter h) with ⟨i, _, rfl⟩
  exact wordAt_lt 8 16 _

/-- The library is patched from the address that the call returns. -/
theorem patch_ret {regions : MmapTable} {c : MmapCall} {w : MmapWorld} {fd : Int} {ret : Nat}
    {glibc : List UInt8} (h : (mmapWrapper regions c w).patch = some (fd, ret, glibc)) :
    ret = w.ret := by
  unfold mmapWrapper at h
  split at h
  · cases h
  · split at h
    · simp only at h
      split at h
      · split at h
        · split at h
          · cases h
            rfl
          · cases h
        · cases h
      · cases h
    · cases h

/-- The arithmetic of a trampoline: the segment at `ret`, and the function at `v` from the base. -/
theorem inPlace_iff_of_eq {base ret length pVaddr : Nat} {value : List UInt8 → Nat}
    {t : TrampolineWrite} (hpVaddr : pVaddr < wordSize) (hvalue : value t.symbol < wordSize)
    (hret : ret = wrap (base + pVaddr)) (hvalid : ValidRange ret length)
    (hfrom : t.fromAddr = wrap (ret + value t.symbol)) :
    InPlace base ret length value t ↔
      pVaddr = 0 ∧ value t.symbol + asmJump.length ≤ pagesUp length := by
  have hroom := hvalid.room
  have hjump : asmJump.length = 12 := rfl
  constructor
  · rintro ⟨hat, hstart, hstop⟩
    unfold wrap wordSize at *
    omega
  · rintro ⟨rfl, hfits⟩
    have hbase : ret = wrap base := by simpa using hret
    have hlt : ret + value t.symbol < wordSize := by omega
    rw [wrap_of_lt hlt] at hfrom
    refine ⟨?_, by omega, by omega⟩
    unfold wrap wordSize at *
    omega

/-- The trampolines are right exactly in a segment that is linked at zero, for functions that are in
it. -/
theorem inPlace_iff {files : List UInt8 → Option (List UInt8)} {glibc content table : List UInt8}
    {sym str : Nat} {value : List UInt8 → Nat}
    (hsymbols : SymbolsIn files glibc content table sym str)
    (hexports : Exports table sym str value) {base : Nat} {phdr : Elf64Phdr} {c : MmapCall}
    {w : MmapWorld} (hmaps : MapsCode content base phdr c w) {regions : MmapTable} {fd : Int}
    {ret : Nat} (hpatch : (mmapWrapper regions c w).patch = some (fd, ret, glibc)) {k : Kernel}
    {junk : Elf64Shdr} {lhInfo : LowerHalfInfo} {s s' : AddrSpace}
    (hrun : patchLibc k files junk lhInfo s fd ret glibc = .ok s') :
    ∃ ws, patchLibcWrites k files junk lhInfo s fd ret glibc = .ok ws ∧
      s'.bytes = writeTrampolines s.bytes ws ∧
      ∀ t ∈ ws, (InPlace base w.ret c.length value t ↔
        phdr.pVaddr = 0 ∧ value t.symbol + asmJump.length ≤ pagesUp c.length) := by
  obtain ⟨ws, hws, hbytes⟩ := patchLibcWrites_of_patchLibc hrun
  obtain rfl : ret = w.ret := patch_ret hpatch
  refine ⟨ws, hws, hbytes, fun t ht => ?_⟩
  obtain ⟨hfrom, hvalue⟩ := fromAddr_of_mem hsymbols hexports hws ht
  exact inPlace_iff_of_eq (pVaddr_lt hmaps.segment) hvalue hmaps.ret hmaps.valid hfrom

/-! ## Two layouts -/

def smallLibcName : List UInt8 := cstr ['/', 'l', 'i', 'b', 'c', '-', '2']

/-- A library with one segment, linked at the given address, and in it `mmap` and `sbrk`. -/
def smallLibc (vaddr : Nat) : List UInt8 :=
  elfMag ++ [elfClass64, 1, 1, 0] ++ putWord 8 0 ++
    putWord 2 3 ++ putWord 2 62 ++ putWord 4 1 ++ putWord 8 0 ++ putWord 8 64 ++ putWord 8 120 ++
    putWord 4 0 ++ putWord 2 64 ++ putWord 2 56 ++ putWord 2 1 ++ putWord 2 64 ++ putWord 2 3 ++
    putWord 2 2 ++
  phdrBytes (pfR ||| pfX) 0 vaddr 411 411 ++
  shdrBytes 0 0 0 0 ++ shdrBytes 1 shtSymtab 339 72 ++ shdrBytes 9 shtStrtab 312 27 ++
  smallLibNames ++
  symBytes 0 shnUndef 0 ++ symBytes 17 7 (vaddr + 0x100) ++ symBytes 22 7 (vaddr + 0x140)

def smallLibcFiles (vaddr : Nat) (name : List UInt8) : Option (List UInt8) :=
  if name = smallLibcName then some (smallLibc vaddr) else none

theorem smallLibcFiles_name (vaddr : Nat) :
    smallLibcFiles vaddr smallLibcName = some (smallLibc vaddr) := if_pos rfl

def smallLibcValue (vaddr : Nat) (symbol : List UInt8) : Nat :=
  if symbol = mmapSymbolName then vaddr + 0x100 else vaddr + 0x140

theorem located_smallLibc {vaddr : Nat} (hv : vaddr ∈ [0, pageSize]) :
    Located (smallLibc vaddr) (sectionHeader (smallLibc vaddr) 2) where
  pos := (by decide +kernel :
    ∀ v ∈ [0, pageSize], 0 < (sectionHeader (smallLibc v) 2).shOffset) vaddr hv
  offset_lt := (by decide +kernel :
    ∀ v ∈ [0, pageSize], (sectionHeader (smallLibc v) 2).shOffset < 2 ^ 31) vaddr hv
  inFile := (by decide +kernel : ∀ v ∈ [0, pageSize],
    (sectionHeader (smallLibc v) 2).shOffset + (sectionHeader (smallLibc v) 2).shSize ≤
      (smallLibc v).length) vaddr hv

theorem wellFormedElf_smallLibc {vaddr : Nat} (hv : vaddr ∈ [0, pageSize]) :
    WellFormedElf (smallLibc vaddr) 1 2 where
  length_lt := (by decide +kernel : ∀ v ∈ [0, pageSize], (smallLibc v).length < 2 ^ 63) vaddr hv
  header := (by decide +kernel : ∀ v ∈ [0, pageSize], ehdrSize ≤ (smallLibc v).length) vaddr hv
  shentsize := (by decide +kernel :
    ∀ v ∈ [0, pageSize], (fileHeader (smallLibc v)).eShentsize = shdrSize) vaddr hv
  sections := (by decide +kernel : ∀ v ∈ [0, pageSize], (fileHeader (smallLibc v)).eShoff +
    shdrSize * (fileHeader (smallLibc v)).eShnum ≤ (smallLibc v).length) vaddr hv
  shstrndx := (by decide +kernel : ∀ v ∈ [0, pageSize],
    (fileHeader (smallLibc v)).eShstrndx < (fileHeader (smallLibc v)).eShnum) vaddr hv
  shstrtab := by
    have hndx : (fileHeader (smallLibc vaddr)).eShstrndx = 2 := (by decide +kernel :
      ∀ v ∈ [0, pageSize], (fileHeader (smallLibc v)).eShstrndx = 2) vaddr hv
    rw [hndx]
    exact located_smallLibc hv
  names := (by decide +kernel : ∀ v ∈ [0, pageSize],
    ∀ i < (fileHeader (smallLibc v)).eShnum, sectionName (smallLibc v) i ≠ none) vaddr hv
  debuglink := by
    intro i hi hname
    exact absurd hname ((by decide +kernel : ∀ v ∈ [0, pageSize],
      ∀ i < (fileHeader (smallLibc v)).eShnum,
        sectionName (smallLibc v) i ≠ some elfDebuglinkSect) vaddr hv i hi)
  sym_lt := (by decide +kernel :
    ∀ v ∈ [0, pageSize], 1 < (fileHeader (smallLibc v)).eShnum) vaddr hv
  symtab_iff := (by decide +kernel : ∀ v ∈ [0, pageSize],
    ∀ i < (fileHeader (smallLibc v)).eShnum,
      (sectionHeader (smallLibc v) i).shType = shtSymtab ↔ i = 1) vaddr hv
  symtab_size := (by decide +kernel : ∀ v ∈ [0, pageSize],
    symSize ∣ (sectionHeader (smallLibc v) 1).shSize) vaddr hv
  symtab := (by decide +kernel : ∀ v ∈ [0, pageSize],
    (sectionHeader (smallLibc v) 1).shOffset + (sectionHeader (smallLibc v) 1).shSize ≤
      (smallLibc v).length) vaddr hv
  str_lt := (by decide +kernel :
    ∀ v ∈ [0, pageSize], 2 < (fileHeader (smallLibc v)).eShnum) vaddr hv
  strtab_iff := (by decide +kernel : ∀ v ∈ [0, pageSize],
    ∀ i < (fileHeader (smallLibc v)).eShnum,
      ((sectionHeader (smallLibc v) i).shType = shtStrtab ∧
        sectionName (smallLibc v) i = some elfStrtabSect) ↔ i = 2) vaddr hv
  strtab := located_smallLibc hv
  symbol_names := (by decide +kernel : ∀ v ∈ [0, pageSize],
    ∀ s ∈ elfSymbols (smallLibc v) 1, symbolName (smallLibc v) 2 s ≠ none) vaddr hv

theorem symbolsIn_smallLibc {vaddr : Nat} (hv : vaddr ∈ [0, pageSize]) :
    SymbolsIn (smallLibcFiles vaddr) smallLibcName (smallLibc vaddr) (smallLibc vaddr) 1 2 :=
  ⟨smallLibcFiles_name vaddr, wellFormedElf_smallLibc hv, .inl rfl⟩

theorem exports_smallLibc {vaddr : Nat} (hv : vaddr ∈ [0, pageSize]) :
    Exports (smallLibc vaddr) 1 2 (smallLibcValue vaddr) :=
  (by decide +kernel : ∀ v ∈ [0, pageSize], ∀ symbol ∈ [mmapSymbolName, sbrkSymbolName],
    ∀ e ∈ elfSymbols (smallLibc v) 1, symbolName (smallLibc v) 2 e = some symbol →
      e.stShndx ≠ shnUndef ∧ e.stValue = smallLibcValue v symbol) vaddr hv

/-- The base of the library, with four pages of code from it on. -/
def smallLibcBase : Nat := 0x7f0000000000

def smallLibcSpace : AddrSpace :=
  emptySpace.mapFixed smallLibcBase 0x4000 (protRead ||| protExec) (by decide)

def smallLibcSegment (vaddr : Nat) : Elf64Phdr :=
  ⟨ptLoad, pfR ||| pfX, 0, vaddr, 411, 411, pageSize⟩

def smallLibcCall (vaddr : Nat) : MmapCall :=
  ⟨smallLibcBase + vaddr, 411, protRead ||| protExec, mapFixed ||| mapPrivate, 3, 0⟩

def smallLibcWorld (vaddr : Nat) : MmapWorld :=
  ⟨smallLibcBase + vaddr, .EINVAL, some smallLibcName⟩

def smallLibcInfo : LowerHalfInfo := ⟨0x1000, 0x2000, 0x3000, 0, 0x4000⟩

theorem mapsCode_smallLibc {vaddr : Nat} (hv : vaddr ∈ [0, pageSize]) :
    MapsCode (smallLibc vaddr) smallLibcBase (smallLibcSegment vaddr) (smallLibcCall vaddr)
      (smallLibcWorld vaddr) where
  segment := by
    have hsegments : loadSegments (smallLibc vaddr) = [smallLibcSegment vaddr] := (by decide +kernel :
      ∀ v ∈ [0, pageSize], loadSegments (smallLibc v) = [smallLibcSegment v]) vaddr hv
    rw [hsegments]
    exact List.mem_singleton_self _
  aligned := (by decide : ∀ v ∈ [0, pageSize],
    PageAligned (smallLibcSegment v).pOffset ∧ PageAligned (smallLibcSegment v).pVaddr) vaddr hv
  offset := rfl
  exec := (by decide : (protRead ||| protExec) &&& protExec ≠ 0)
  ret := (by decide : ∀ v ∈ [0, pageSize],
    (smallLibcWorld v).ret = wrap (smallLibcBase + (smallLibcSegment v).pVaddr)) vaddr hv
  valid := (by decide : ∀ v ∈ [0, pageSize],
    ValidRange (smallLibcWorld v).ret (smallLibcCall v).length) vaddr hv

theorem patch_smallLibc {vaddr : Nat} (hv : vaddr ∈ [0, pageSize]) :
    (mmapWrapper .initial (smallLibcCall vaddr) (smallLibcWorld vaddr)).patch =
      some (3, smallLibcBase + vaddr, smallLibcName) :=
  (by decide +kernel : ∀ v ∈ [0, pageSize],
    (mmapWrapper .initial (smallLibcCall v) (smallLibcWorld v)).patch =
      some (3, smallLibcBase + v, smallLibcName)) vaddr hv

/-- The trampolines are written one link address behind the functions. -/
theorem patchLibcWrites_smallLibc {vaddr : Nat} (hv : vaddr ∈ [0, pageSize]) :
    patchLibcWrites .plain (smallLibcFiles vaddr) zeroShdr smallLibcInfo smallLibcSpace 3
        (smallLibcBase + vaddr) smallLibcName =
      .ok [⟨mmapSymbolName, smallLibcBase + vaddr + (vaddr + 0x100), 0x2000⟩,
        ⟨sbrkSymbolName, smallLibcBase + vaddr + (vaddr + 0x140), 0x1000⟩] :=
  (by decide +kernel : ∀ v ∈ [0, pageSize],
    patchLibcWrites .plain (smallLibcFiles v) zeroShdr smallLibcInfo smallLibcSpace 3
        (smallLibcBase + v) smallLibcName =
      .ok [⟨mmapSymbolName, smallLibcBase + v + (v + 0x100), 0x2000⟩,
        ⟨sbrkSymbolName, smallLibcBase + v + (v + 0x140), 0x1000⟩]) vaddr hv

/-- Linked at zero, the library is patched where its functions are. -/
theorem inPlace_smallLibc :
    ∃ s' ws, patchLibc .plain (smallLibcFiles 0) zeroShdr smallLibcInfo smallLibcSpace 3
        smallLibcBase smallLibcName = .ok s' ∧
      s'.bytes = writeTrampolines smallLibcSpace.bytes ws ∧ ws.length = 2 ∧
      ∀ t ∈ ws, InPlace smallLibcBase smallLibcBase 411 (smallLibcValue 0) t := by
  have hv : 0 ∈ [0, pageSize] := by decide
  obtain ⟨s', hrun⟩ := patchLibc_of_patchLibcWrites (patchLibcWrites_smallLibc hv)
  obtain ⟨ws, hws, hbytes, hplace⟩ := inPlace_iff (symbolsIn_smallLibc hv) (exports_smallLibc hv)
    (mapsCode_smallLibc hv) (patch_smallLibc hv) hrun
  obtain rfl := Exec.ok.inj (hws.symm.trans (patchLibcWrites_smallLibc hv))
  refine ⟨s', _, hrun, hbytes, rfl, fun t ht => (hplace t ht).2 ⟨rfl, ?_⟩⟩
  rcases List.mem_pair.1 ht with rfl | rfl
  · decide
  · decide

/-- Linked in the second page, it is patched one page behind them, outside of what was mapped. -/
theorem not_inPlace_smallLibc :
    SymbolsIn (smallLibcFiles pageSize) smallLibcName (smallLibc pageSize) (smallLibc pageSize) 1 2 ∧
      Exports (smallLibc pageSize) 1 2 (smallLibcValue pageSize) ∧
      (mmapWrapper .initial (smallLibcCall pageSize) (smallLibcWorld pageSize)).patch =
        some (3, smallLibcBase + pageSize, smallLibcName) ∧
      MapsCode (smallLibc pageSize) smallLibcBase (smallLibcSegment pageSize)
        (smallLibcCall pageSize) (smallLibcWorld pageSize) ∧
      ∃ s', patchLibc .plain (smallLibcFiles pageSize) zeroShdr smallLibcInfo smallLibcSpace 3
          (smallLibcBase + pageSize) smallLibcName = .ok s' ∧
        ∃ ws, patchLibcWrites .plain (smallLibcFiles pageSize) zeroShdr smallLibcInfo smallLibcSpace
            3 (smallLibcBase + pageSize) smallLibcName = .ok ws ∧
          s'.bytes = writeTrampolines smallLibcSpace.bytes ws ∧
          ∃ t ∈ ws, t.symbol = mmapSymbolName ∧
            t.fromAddr = smallLibcBase + pageSize + smallLibcValue pageSize mmapSymbolName ∧
            ¬ InPlace smallLibcBase (smallLibcBase + pageSize) 411 (smallLibcValue pageSize) t := by
  have hv : pageSize ∈ [0, pageSize] := by decide
  obtain ⟨s', hrun⟩ := patchLibc_of_patchLibcWrites (patchLibcWrites_smallLibc hv)
  obtain ⟨ws, hws, hbytes⟩ := patchLibcWrites_of_patchLibc hrun
  obtain rfl := Exec.ok.inj (hws.symm.trans (patchLibcWrites_smallLibc hv))
  refine ⟨symbolsIn_smallLibc hv, exports_smallLibc hv, patch_smallLibc hv, mapsCode_smallLibc hv, s',
    hrun, _, hws, hbytes, _, List.mem_cons_self, rfl, by decide, fun hplace => ?_⟩
  exact absurd hplace.stop (by decide)

end CkptRestart
