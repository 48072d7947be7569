import CkptRestart.Elf
import CkptRestart.Lib.Exec

/-!
# TrampolineSetup — looking up a symbol of a library

`get_symbol_offset` of `trampoline_setup.c`, with `getSymbolTable` and `readElfSection`: the section
headers of the file are scanned for the symbol table and for the section `.strtab`, and the entries of
the table for the first one of the name.

`WellFormedElf.getSymbolOffset` brings all of this to `List.find?` on the entries of the file, and
`findsDefinition_iff` says when the entry that is found is one the file defines.
-/

namespace CkptRestart

open Lib

/-! ## The code -/

/-- The string at an offset of a buffer that was read from the file.  A null pointer, or a string that
does not end inside the buffer, ends the process here. -/
def strIn (data : Option (List UInt8)) (off : Nat) : Exec (List UInt8) :=
  match data.bind fun bs => stringAt bs off with
  | some s => pure s
  | none => .exited

/-- `readElfSection`: its result, `*shdr`, `*data`, and the descriptor. -/
def readElfSection (fd : FileDesc) (sidx : Nat) (ehdr : Elf64Ehdr) (data : Option (List UInt8)) :
    Exec (Int × Elf64Shdr × Option (List UInt8) × FileDesc) :=
  let currOff := fd.pos
  let sidxOff := wrap (ehdr.eShentsize * sidx + ehdr.eShoff)
  let fd := (fd.lseek sidxOff).2
  let (buf, fd) := fd.read shdrSize
  if buf.length ≠ shdrSize then .exited
  else
    let shdr := decodeShdr buf
    let (off, fd) := fd.lseek shdr.shOffset
    -- the offset goes through an `int`
    if toInt32 off > 0 then
      let (buf, fd) := fd.read shdr.shSize
      pure (0, shdr, some buf, (fd.lseek currOff).2)
    else pure (if data.isSome then 0 else -1, shdr, data, (fd.lseek currOff).2)

/-- The variables of `getSymbolTable`, with `*symtab` and `*strtab`. -/
structure SymSearch where
  symtab : Elf64Shdr
  strtab : Option (List UInt8)
  shsectData : Option (List UInt8)
  debugLibName : List UInt8
  symtabFound : Bool
  foundDebugLib : Bool

def mmapSymbolName : List UInt8 := cstr ['m', 'm', 'a', 'p']

def sbrkSymbolName : List UInt8 := cstr ['s', 'b', 'r', 'k']

def elfStrtabSect : List UInt8 := cstr ['.', 's', 't', 'r', 't', 'a', 'b']

def elfDebuglinkSect : List UInt8 :=
  cstr ['.', 'g', 'n', 'u', '_', 'd', 'e', 'b', 'u', 'g', 'l', 'i', 'n', 'k']

def debugFilesPath : List UInt8 :=
  cstr ['/', 'u', 's', 'r', '/', 'l', 'i', 'b', '/', 'd', 'e', 'b', 'u', 'g', '/', 'l', 'i', 'b',
    '/', 'x', '8', '6', '_', '6', '4', '-', 'l', 'i', 'n', 'u', 'x', '-', 'g', 'n', 'u']

def pathMax : Nat := 4096

/-- The body of the loop over the section headers. -/
def scanSection (ehdr : Elf64Ehdr) (s : FileDesc × SymSearch) (i : Nat) :
    Exec (FileDesc × SymSearch) :=
  let (fd, st) := s
  let (buf, fd) := fd.read shdrSize
  if buf.length ≠ shdrSize then .exited
  else
    let sectHdr := decodeShdr buf
    if sectHdr.shType = shtSymtab then
      pure (fd, { st with symtab := sectHdr, symtabFound := true })
    else if sectHdr.shType = shtStrtab then do
      let name ← strIn st.shsectData sectHdr.shName
      if name = elfStrtabSect then do
        let (_, _, strtab, fd) ← readElfSection fd i ehdr st.strtab
        pure (fd, { st with strtab := strtab })
      else pure (fd, st)
    else if sectHdr.shType = shtProgbits then do
      let name ← strIn st.shsectData sectHdr.shName
      if name = elfDebuglinkSect then do
        let (_, _, debugName, fd) ← readElfSection fd i ehdr none
        let debugName ← strIn debugName 0
        pure (fd, { st with
          debugLibName := (debugFilesPath ++ chr '/' :: debugName).take (pathMax - 1)
          foundDebugLib := true })
      else pure (fd, st)
    else pure (fd, st)

/-- The loop of `getSymbolTable`: at most two files are tried.  `files` are the files that can be
opened. -/
def symbolTableLoop (files : List UInt8 → Option (List UInt8)) :
    Nat → List UInt8 → SymSearch → Exec (Option (FileDesc × SymSearch))
  | 0, _, _ => pure none
  | tries + 1, lname, st =>
      match files lname with
      -- the read from a descriptor of -1 fails its assertion
      | none => .exited
      | some content => do
          let (buf, fd) := (⟨content, 0⟩ : FileDesc).read ehdrSize
          if buf.length ≠ ehdrSize then .exited
          else do
            let elfHdr := decodeEhdr buf
            let (_, _, shsectData, fd) ← readElfSection fd elfHdr.eShstrndx elfHdr st.shsectData
            let fd := (fd.lseek elfHdr.eShoff).2
            let (fd, st) ← Exec.steps (scanSection elfHdr) (List.range elfHdr.eShnum)
              (fd, { st with shsectData := shsectData })
            if st.symtabFound || !st.foundDebugLib then pure (some (fd, st))
            else symbolTableLoop files tries st.debugLibName st

/-- `getSymbolTable`; `junk` is what the caller's `symtab` holds before. -/
def getSymbolTable (files : List UInt8 → Option (List UInt8)) (junk : Elf64Shdr)
    (libname : List UInt8) : Exec (Option (FileDesc × SymSearch)) :=
  symbolTableLoop files 2 libname
    { symtab := junk
      strtab := none
      shsectData := none
      debugLibName := []
      symtabFound := false
      foundDebugLib := false }

/-- The loop over the entries of the table; `fuel` bounds the number of its rounds. -/
def symbolLoop (symtab : Elf64Shdr) (strtab : Option (List UInt8)) (symbol : List UInt8) :
    Nat → FileDesc → Exec Int
  | 0, _ => .running
  | fuel + 1, fd =>
      if toUnsigned ((fd.pos : Int) - symtab.shOffset) < symtab.shSize then
        let (buf, fd) := fd.read symSize
        if buf.length ≠ symSize then .exited
        else do
          let symtabEntry := decodeSym buf
          let name ← strIn strtab symtabEntry.stName
          -- whatever kind of entry it is
          if name = symbol then pure (toSigned symtabEntry.stValue)
          else symbolLoop symtab strtab symbol fuel fd
      else pure (-1)

/-- `get_symbol_offset`: a round of its loop that goes on has read an entry of the file. -/
def getSymbolOffset (files : List UInt8 → Option (List UInt8)) (junk : Elf64Shdr)
    (libname symbol : List UInt8) : Exec Int := do
  match ← getSymbolTable files junk libname with
  | none => pure (-1)
  | some (fd, st) =>
      let fd := (fd.lseek st.symtab.shOffset).2
      symbolLoop st.symtab st.strtab symbol (fd.content.length + 1) fd

/-! ## What is in the file -/

section File

variable (content : List UInt8)

def fileHeader : Elf64Ehdr := decodeEhdr (slice content 0 ehdrSize)

def sectionHeader (i : Nat) : Elf64Shdr :=
  decodeShdr (slice content ((fileHeader content).eShoff + shdrSize * i) shdrSize)

def sectionData (shdr : Elf64Shdr) : List UInt8 := slice content shdr.shOffset shdr.shSize

/-- The contents of the section with the names of the sections. -/
def sectionNames : List UInt8 :=
  sectionData content (sectionHeader content (fileHeader content).eShstrndx)

def sectionName (i : Nat) : Option (List UInt8) :=
  stringAt (sectionNames content) (sectionHeader content i).shName

/-- The entries of a symbol table. -/
def elfSymbols (sym : Nat) : List Elf64Sym :=
  (List.range ((sectionHeader content sym).shSize / symSize)).map fun j =>
    decodeSym (slice content ((sectionHeader content sym).shOffset + symSize * j) symSize)

/-- The name of an entry, in the string table `str`. -/
def symbolName (str : Nat) (s : Elf64Sym) : Option (List UInt8) :=
  stringAt (sectionData content (sectionHeader content str)) s.stName

/-- What the scan looks for: symbol tables, the strings of their names, and links to debug files. -/
def IsSymtab (i : Nat) : Prop := (sectionHeader content i).shType = shtSymtab

def IsStrtab (i : Nat) : Prop :=
  (sectionHeader content i).shType = shtStrtab ∧ sectionName content i = some elfStrtabSect

def IsDebuglink (i : Nat) : Prop :=
  (sectionHeader content i).shType = shtProgbits ∧ sectionName content i = some elfDebuglinkSect

/-- The name in a `.gnu_debuglink` section. -/
def debugLink (i : Nat) : Option (List UInt8) :=
  stringAt (sectionData content (sectionHeader content i)) 0

/-- A section that lies in the file, at an offset that fits an `int`. -/
structure Located (shdr : Elf64Shdr) : Prop where
  pos : 0 < shdr.shOffset
  offset_lt : shdr.shOffset < 2 ^ 31
  inFile : shdr.shOffset + shdr.shSize ≤ content.length

/-- An ELF64 file with one symbol table, in section `sym`, whose names are in the section `str`, the
only string table with the name `.strtab`. -/
structure WellFormedElf (sym str : Nat) : Prop where
  length_lt : content.length < 2 ^ 63
  header : ehdrSize ≤ content.length
  shentsize : (fileHeader content).eShentsize = shdrSize
  sections : (fileHeader content).eShoff + shdrSize * (fileHeader content).eShnum ≤ content.length
  shstrndx : (fileHeader content).eShstrndx < (fileHeader content).eShnum
  shstrtab : Located content (sectionHeader content (fileHeader content).eShstrndx)
  names : ∀ i < (fileHeader content).eShnum, sectionName content i ≠ none
  debuglink : ∀ i < (fileHeader content).eShnum, sectionName content i = some elfDebuglinkSect →
    Located content (sectionHeader content i) ∧
      stringAt (sectionData content (sectionHeader content i)) 0 ≠ none
  sym_lt : sym < (fileHeader content).eShnum
  symtab_iff : ∀ i < (fileHeader content).eShnum,
    (sectionHeader content i).shType = shtSymtab ↔ i = sym
  symtab_size : symSize ∣ (sectionHeader content sym).shSize
  symtab : (sectionHeader content sym).shOffset + (sectionHeader content sym).shSize ≤ content.length
  str_lt : str < (fileHeader content).eShnum
  strtab_iff : ∀ i < (fileHeader content).eShnum,
    ((sectionHeader content i).shType = shtStrtab ∧ sectionName content i = some elfStrtabSect) ↔
      i = str
  strtab : Located content (sectionHeader content str)
  symbol_names : ∀ s ∈ elfSymbols content sym, symbolName content str s ≠ none

end File

/-! ## Reading the sections -/

theorem strIn_of_stringAt {bs name : List UInt8} {off : Nat} (h : stringAt bs off = some name) :
    strIn (some bs) off = .ok name := by
  simp [strIn, h]

section Sections

variable {content : List UInt8} {sym str : Nat}

theorem WellFormedElf.sectionHeader_inFile (h : WellFormedElf content sym str) {i : Nat}
    (hi : i < (fileHeader content).eShnum) :
    (fileHeader content).eShoff + shdrSize * i + shdrSize ≤ content.length := by
  have hle : shdrSize * i + shdrSize ≤ shdrSize * (fileHeader content).eShnum := by
    rw [← Nat.mul_succ]
    exact Nat.mul_le_mul_left _ hi
  have := h.sections
  omega

/-- A section header that lies in the file is read, then the section if its offset is one, and the
descriptor is where it was. -/
theorem readElfSection_of_le {i off : Nat} (hlen : content.length < 2 ^ 63)
    (hoff : wrap ((fileHeader content).eShentsize * i + (fileHeader content).eShoff) = off)
    (hin : off + shdrSize ≤ content.length) {pos : Nat} (hpos : pos < 2 ^ 63)
    (data : Option (List UInt8)) :
    ∃ rc data', readElfSection ⟨content, pos⟩ i (fileHeader content) data =
        .ok (rc, decodeShdr (slice content off shdrSize), data', ⟨content, pos⟩) ∧
      (Located content (decodeShdr (slice content off shdrSize)) → rc = 0 ∧
        data' = some (sectionData content (decodeShdr (slice content off shdrSize)))) := by
  have hseek : off < 2 ^ 63 := lt_of_le_of_lt (Nat.le_of_add_right_le hin) hlen
  have hread := @FileDesc.read_of_le ⟨content, off⟩ shdrSize hin
  have hback : ∀ fd : FileDesc, (fd.lseek pos).2 = ⟨fd.content, pos⟩ := fun fd => by
    rw [FileDesc.lseek_of_lt _ hpos]
  simp only [readElfSection, hoff, FileDesc.lseek_of_lt _ hseek, hread, length_slice hin, ne_eq,
    not_true_eq_false, if_false, hback]
  by_cases hsecond : (decodeShdr (slice content off shdrSize)).shOffset < 2 ^ 63
  · simp only [FileDesc.lseek_of_lt _ hsecond]
    split
    · exact ⟨0, some (sectionData content (decodeShdr (slice content off shdrSize))), rfl,
        fun _ => ⟨rfl, rfl⟩⟩
    · rename_i hnot
      refine ⟨if data.isSome then 0 else -1, data, rfl, fun hlocated => absurd ?_ hnot⟩
      have := hlocated.pos
      have := hlocated.offset_lt
      rw [toInt32, Int.bmod_eq_of_le (by omega) (by omega)]
      omega
  · -- `lseek` has failed with `-1`
    have hfail : ¬ toInt32 (-1) > 0 := by decide
    have hrefused : (⟨content, off + shdrSize⟩ : FileDesc).lseek
        (decodeShdr (slice content off shdrSize)).shOffset = (-1, ⟨content, off + shdrSize⟩) :=
      if_neg hsecond
    simp only [hrefused, if_neg hfail]
    exact ⟨if data.isSome then 0 else -1, data, rfl,
      fun hlocated => absurd (lt_trans hlocated.offset_lt (by decide)) hsecond⟩

/-- A section that lies in the file is read. -/
theorem readElfSection_of_located {i : Nat} (hlen : content.length < 2 ^ 63)
    (hentsize : (fileHeader content).eShentsize = shdrSize)
    (hin : (fileHeader content).eShoff + shdrSize * i + shdrSize ≤ content.length)
    (hlocated : Located content (sectionHeader content i)) {pos : Nat} (hpos : pos < 2 ^ 63)
    (data : Option (List UInt8)) :
    readElfSection ⟨content, pos⟩ i (fileHeader content) data =
      .ok (0, sectionHeader content i, some (sectionData content (sectionHeader content i)),
        ⟨content, pos⟩) := by
  have hoff : wrap ((fileHeader content).eShentsize * i + (fileHeader content).eShoff) =
      (fileHeader content).eShoff + shdrSize * i := by
    rw [hentsize, Nat.add_comm, wrap_of_lt]
    exact lt_of_le_of_lt (Nat.le_of_add_right_le hin) (lt_trans hlen (by decide))
  rcases readElfSection_of_le hlen hoff hin hpos data with ⟨rc, data', hrun, hread⟩
  obtain ⟨rfl, rfl⟩ := hread hlocated
  exact hrun

/-- The same for the sections of a well-formed file. -/
theorem WellFormedElf.readElfSection (h : WellFormedElf content sym str) {i : Nat}
    (hi : i < (fileHeader content).eShnum) (hlocated : Located content (sectionHeader content i))
    {pos : Nat} (hpos : pos < 2 ^ 63) (data : Option (List UInt8)) :
    CkptRestart.readElfSection ⟨content, pos⟩ i (fileHeader content) data =
      .ok (0, sectionHeader content i, some (sectionData content (sectionHeader content i)),
        ⟨content, pos⟩) :=
  readElfSection_of_located h.length_lt h.shentsize (h.sectionHeader_inFile hi) hlocated hpos data

/-- What a round of the scan does to the variables. -/
structure Scanned (content : List UInt8) (i : Nat) (st st' : SymSearch) : Prop where
  shsectData : st'.shsectData = st.shsectData
  symtab : IsSymtab content i → st'.symtab = sectionHeader content i ∧ st'.symtabFound = true
  symtab_of_not : ¬ IsSymtab content i →
    st'.symtab = st.symtab ∧ st'.symtabFound = st.symtabFound
  strtab : IsStrtab content i →
    st'.strtab = some (sectionData content (sectionHeader content i))
  strtab_of_not : ¬ IsStrtab content i → st'.strtab = st.strtab
  debuglink : IsDebuglink content i → ∀ name, debugLink content i = some name →
    st'.debugLibName = (debugFilesPath ++ chr '/' :: name).take (pathMax - 1) ∧
      st'.foundDebugLib = true
  debuglink_of_not : ¬ IsDebuglink content i →
    st'.debugLibName = st.debugLibName ∧ st'.foundDebugLib = st.foundDebugLib

/-- The header is read, and so is the name of the section where the loop looks at it. -/
theorem scanSection_eq {i : Nat}
    (hin : (fileHeader content).eShoff + shdrSize * i + shdrSize ≤ content.length) {st : SymSearch}
    (hshsect : st.shsectData = some (sectionNames content)) {name : List UInt8}
    (hname : sectionName content i = some name) :
    scanSection (fileHeader content)
        (⟨content, (fileHeader content).eShoff + shdrSize * i⟩, st) i =
      let fd : FileDesc := ⟨content, (fileHeader content).eShoff + shdrSize * (i + 1)⟩
      if (sectionHeader content i).shType = shtSymtab then
        .ok (fd, { st with symtab := sectionHeader content i, symtabFound := true })
      else if (sectionHeader content i).shType = shtStrtab then
        if name = elfStrtabSect then
          readElfSection fd i (fileHeader content) st.strtab >>= fun r =>
            .ok (r.2.2.2, { st with strtab := r.2.2.1 })
        else .ok (fd, st)
      else if (sectionHeader content i).shType = shtProgbits then
        if name = elfDebuglinkSect then
          readElfSection fd i (fileHeader content) none >>= fun r =>
            strIn r.2.2.1 0 >>= fun debugName =>
              .ok (r.2.2.2, { st with
                debugLibName := (debugFilesPath ++ chr '/' :: debugName).take (pathMax - 1)
                foundDebugLib := true })
        else .ok (fd, st)
      else .ok (fd, st) := by
  have hread := @FileDesc.read_of_le
    ⟨content, (fileHeader content).eShoff + shdrSize * i⟩ shdrSize hin
  have hdecode : decodeShdr (slice content ((fileHeader content).eShoff + shdrSize * i) shdrSize) =
      sectionHeader content i := rfl
  have hnext : (fileHeader content).eShoff + shdrSize * i + shdrSize =
      (fileHeader content).eShoff + shdrSize * (i + 1) := by
    rw [Nat.mul_succ, Nat.add_assoc]
  have hstrIn : strIn st.shsectData (sectionHeader content i).shName = .ok name := by
    rw [hshsect]
    exact strIn_of_stringAt hname
  simp only [scanSection, hread, length_slice hin, ne_eq, not_true_eq_false,
    if_false, hdecode, hnext, hstrIn, Exec.ok_bind]
  rfl

/-! The three kinds of section have different types. -/

theorem IsSymtab.not_strtab {i : Nat} (h : IsSymtab content i) : ¬ IsStrtab content i :=
  fun hstr => absurd (h.symm.trans hstr.1) (by decide)

theorem IsSymtab.not_debuglink {i : Nat} (h : IsSymtab content i) : ¬ IsDebuglink content i :=
  fun hlink => absurd (h.symm.trans hlink.1) (by decide)

theorem IsStrtab.not_debuglink {i : Nat} (h : IsStrtab content i) : ¬ IsDebuglink content i :=
  fun hlink => absurd (h.1.symm.trans hlink.1) (by decide)

/-! What the rounds of each kind do. -/

theorem scanned_symtab {i : Nat} (his : IsSymtab content i) (st : SymSearch) :
    Scanned content i st { st with symtab := sectionHeader content i, symtabFound := true } where
  shsectData := rfl
  symtab _ := ⟨rfl, rfl⟩
  symtab_of_not hnot := absurd his hnot
  strtab h := absurd h his.not_strtab
  strtab_of_not _ := rfl
  debuglink h := absurd h his.not_debuglink
  debuglink_of_not _ := ⟨rfl, rfl⟩

theorem scanned_strtab {i : Nat} (his : IsStrtab content i) (st : SymSearch) :
    Scanned content i st
      { st with strtab := some (sectionData content (sectionHeader content i)) } where
  shsectData := rfl
  symtab h := absurd his h.not_strtab
  symtab_of_not _ := ⟨rfl, rfl⟩
  strtab _ := rfl
  strtab_of_not hnot := absurd his hnot
  debuglink h := absurd h his.not_debuglink
  debuglink_of_not _ := ⟨rfl, rfl⟩

theorem scanned_debuglink {i : Nat} (his : IsDebuglink content i) {name : List UInt8}
    (hname : debugLink content i = some name) (st : SymSearch) :
    Scanned content i st { st with
      debugLibName := (debugFilesPath ++ chr '/' :: name).take (pathMax - 1)
      foundDebugLib := true } where
  shsectData := rfl
  symtab h := absurd his h.not_debuglink
  symtab_of_not _ := ⟨rfl, rfl⟩
  strtab h := absurd his h.not_debuglink
  strtab_of_not _ := rfl
  debuglink _ other hother := by
    obtain rfl : name = other := Option.some.inj (hname.symm.trans hother)
    exact ⟨rfl, rfl⟩
  debuglink_of_not hnot := absurd his hnot

theorem scanned_other {i : Nat} (hsym : ¬ IsSymtab content i) (hstr : ¬ IsStrtab content i)
    (hlink : ¬ IsDebuglink content i) (st : SymSearch) : Scanned content i st st where
  shsectData := rfl
  symtab h := absurd h hsym
  symtab_of_not _ := ⟨rfl, rfl⟩
  strtab h := absurd h hstr
  strtab_of_not _ := rfl
  debuglink h := absurd h hlink
  debuglink_of_not _ := ⟨rfl, rfl⟩

/-- A round in which the sections that are read lie in the file. -/
theorem scanSection_scanned {i : Nat} (hlen : content.length < 2 ^ 63)
    (hentsize : (fileHeader content).eShentsize = shdrSize)
    (hin : (fileHeader content).eShoff + shdrSize * i + shdrSize ≤ content.length) {st : SymSearch}
    (hshsect : st.shsectData = some (sectionNames content)) (hnamed : sectionName content i ≠ none)
    (hstrtab : IsStrtab content i → Located content (sectionHeader content i))
    (hdebuglink : IsDebuglink content i →
      Located content (sectionHeader content i) ∧ debugLink content i ≠ none) :
    ∃ st', scanSection (fileHeader content)
        (⟨content, (fileHeader content).eShoff + shdrSize * i⟩, st) i =
          .ok (⟨content, (fileHeader content).eShoff + shdrSize * (i + 1)⟩, st') ∧
      Scanned content i st st' := by
  have hpos : (fileHeader content).eShoff + shdrSize * (i + 1) < 2 ^ 63 := by
    rw [Nat.add_assoc, ← Nat.mul_succ] at hin
    exact lt_of_le_of_lt hin hlen
  have hread := fun hlocated data =>
    @readElfSection_of_located content i hlen hentsize hin hlocated _ hpos data
  obtain ⟨name, hname⟩ := Option.ne_none_iff_exists'.1 hnamed
  rw [scanSection_eq hin hshsect hname]
  have hstr : IsStrtab content i ↔
      (sectionHeader content i).shType = shtStrtab ∧ name = elfStrtabSect := by
    simp [IsStrtab, hname]
  have hlink : IsDebuglink content i ↔
      (sectionHeader content i).shType = shtProgbits ∧ name = elfDebuglinkSect := by
    simp [IsDebuglink, hname]
  by_cases hsym : IsSymtab content i
  · exact ⟨_, if_pos hsym, scanned_symtab hsym st⟩
  have hnotype : (sectionHeader content i).shType ≠ shtSymtab := hsym
  simp only [if_neg hnotype]
  by_cases his : IsStrtab content i
  · refine ⟨_, ?_, scanned_strtab his st⟩
    rw [if_pos (hstr.1 his).1, if_pos (hstr.1 his).2, hread (hstrtab his) st.strtab]
    rfl
  by_cases hislink : IsDebuglink content i
  · rcases hdebuglink hislink with ⟨hlocated, hends⟩
    obtain ⟨debugName, hdebug⟩ := Option.ne_none_iff_exists'.1 hends
    have hnostr : (sectionHeader content i).shType ≠ shtStrtab := fun htype =>
      absurd (htype.symm.trans hislink.1) (by decide)
    refine ⟨_, ?_, scanned_debuglink hislink hdebug st⟩
    rw [if_neg hnostr, if_pos hislink.1, if_pos (hlink.1 hislink).2, hread hlocated none,
      Exec.ok_bind, strIn_of_stringAt hdebug, Exec.ok_bind]
  · -- another section, which may share the type with one that is looked for, but not the name
    refine ⟨st, ?_, scanned_other hsym his hislink st⟩
    by_cases htype : (sectionHeader content i).shType = shtStrtab
    · rw [if_pos htype, if_neg fun hsect => his (hstr.2 ⟨htype, hsect⟩)]
    rw [if_neg htype]
    by_cases hprogbits : (sectionHeader content i).shType = shtProgbits
    · rw [if_pos hprogbits, if_neg fun hsect => hislink (hlink.2 ⟨hprogbits, hsect⟩)]
    · rw [if_neg hprogbits]

/-- Before round `i` of the scan: the descriptor is at the header `i`, and what has been found is
stored. -/
structure ScanInv (content : List UInt8) (sym str i : Nat) (s : FileDesc × SymSearch) : Prop where
  fd : s.1 = ⟨content, (fileHeader content).eShoff + shdrSize * i⟩
  shsectData : s.2.shsectData = some (sectionNames content)
  symtab : sym < i → s.2.symtab = sectionHeader content sym ∧ s.2.symtabFound = true
  strtab : str < i → s.2.strtab = some (sectionData content (sectionHeader content str))

theorem WellFormedElf.scanSection (h : WellFormedElf content sym str) {i : Nat}
    (hi : i < (fileHeader content).eShnum) {s : FileDesc × SymSearch}
    (hinv : ScanInv content sym str i s) :
    ∃ s', CkptRestart.scanSection (fileHeader content) s i = .ok s' ∧
      ScanInv content sym str (i + 1) s' := by
  rcases s with ⟨fd, st⟩
  obtain rfl : fd = _ := hinv.fd
  have hstrtab : IsStrtab content i → i = str := (h.strtab_iff i hi).1
  have hlocated : IsStrtab content i → Located content (sectionHeader content i) := by
    intro his
    rw [hstrtab his]
    exact h.strtab
  rcases scanSection_scanned h.length_lt h.shentsize (h.sectionHeader_inFile hi) hinv.shsectData
    (h.names i hi) hlocated (fun his => h.debuglink i hi his.2) with ⟨st', hrun, hscanned⟩
  refine ⟨_, hrun, rfl, hscanned.shsectData.trans hinv.shsectData, fun hlt => ?_, fun hlt => ?_⟩
  · by_cases his : IsSymtab content i
    · obtain rfl := (h.symtab_iff i hi).1 his
      exact hscanned.symtab his
    · have hne : i ≠ sym := fun heq => his ((h.symtab_iff i hi).2 heq)
      rw [(hscanned.symtab_of_not his).1, (hscanned.symtab_of_not his).2]
      exact hinv.symtab (by omega)
  · by_cases his : IsStrtab content i
    · obtain rfl := hstrtab his
      exact hscanned.strtab his
    · have hne : i ≠ str := fun heq => his ((h.strtab_iff i hi).2 heq)
      rw [hscanned.strtab_of_not his]
      exact hinv.strtab (by omega)

/-- Of a well-formed file `getSymbolTable` gets the symbol table and its strings, and no other file is
opened. -/
theorem WellFormedElf.getSymbolTable (h : WellFormedElf content sym str)
    {files : List UInt8 → Option (List UInt8)} {libname : List UInt8}
    (hopen : files libname = some content) (junk : Elf64Shdr) :
    ∃ fd st, CkptRestart.getSymbolTable files junk libname = .ok (some (fd, st)) ∧
      fd.content = content ∧ st.symtab = sectionHeader content sym ∧
      st.strtab = some (sectionData content (sectionHeader content str)) := by
  have hstart : (⟨content, 0⟩ : FileDesc).pos + ehdrSize ≤ content.length := by
    simpa using h.header
  have hread := @FileDesc.read_of_le ⟨content, 0⟩ ehdrSize hstart
  have hlen : (slice content 0 ehdrSize).length = ehdrSize := length_slice hstart
  have hdecode : decodeEhdr (slice content 0 ehdrSize) = fileHeader content := rfl
  have hnames := h.readElfSection h.shstrndx h.shstrtab
    (by decide : 0 + ehdrSize < 2 ^ 63) none
  have hseek : (fileHeader content).eShoff < 2 ^ 63 :=
    lt_of_le_of_lt (Nat.le_of_add_right_le h.sections) h.length_lt
  let st₀ : SymSearch := ⟨junk, none, some (sectionNames content), [], false, false⟩
  have hinit : ScanInv content sym str 0 (⟨content, (fileHeader content).eShoff⟩, st₀) :=
    ⟨rfl, rfl, fun hlt => absurd hlt (Nat.not_lt_zero _), fun hlt => absurd hlt (Nat.not_lt_zero _)⟩
  rcases Exec.steps_range (fun i hi s hinv => h.scanSection hi hinv) hinit with
    ⟨⟨fd, st⟩, hscan, hinv⟩
  rcases hinv.symtab h.sym_lt with ⟨hsymtab, hfound⟩
  refine ⟨fd, st, ?_, congrArg FileDesc.content hinv.fd, hsymtab, hinv.strtab h.str_lt⟩
  have hdata : sectionData content (sectionHeader content (fileHeader content).eShstrndx) =
      sectionNames content := rfl
  rw [hdata] at hnames
  have hfound' : st.symtabFound = true := hfound
  simp only [CkptRestart.getSymbolTable, symbolTableLoop, hopen, hread, hlen, ne_eq,
    not_true_eq_false, if_false, hdecode, hnames, Exec.ok_bind, FileDesc.lseek_of_lt _ hseek]
  rw [hscan]
  simp [hfound']

/-! ## The entries of the table -/

/-- The entry has the name that is looked for. -/
def named (content : List UInt8) (str : Nat) (symbol : List UInt8) (s : Elf64Sym) : Bool :=
  decide (symbolName content str s = some symbol)

/-- What the loop returns when it stops at the first entry of the name. -/
def firstValue : Option Elf64Sym → Int
  | some s => toSigned s.stValue
  | none => -1

/-- The distance from the start of the table, which the loop compares with its size. -/
theorem WellFormedElf.tableOffset (h : WellFormedElf content sym str) {j : Nat}
    (hj : j ≤ (sectionHeader content sym).shSize / symSize) :
    toUnsigned ((((sectionHeader content sym).shOffset + symSize * j : Nat) : Int) -
      (sectionHeader content sym).shOffset) = symSize * j := by
  have hdiff : (((sectionHeader content sym).shOffset + symSize * j : Nat) : Int) -
      (sectionHeader content sym).shOffset = (symSize * j : Nat) := by
    omega
  have hle : symSize * j ≤ (sectionHeader content sym).shSize :=
    (Nat.mul_le_mul_left symSize hj).trans (Nat.mul_div_le _ _)
  have htable := h.symtab
  have hlen := lt_trans h.length_lt (by decide : 2 ^ 63 < wordSize)
  rw [hdiff, toUnsigned_natCast (by omega)]

/-- The next entry, which lies in the file and has a name. -/
theorem WellFormedElf.entry (h : WellFormedElf content sym str) {j : Nat}
    (hj : j < (sectionHeader content sym).shSize / symSize) :
    symSize * j < (sectionHeader content sym).shSize ∧
      (sectionHeader content sym).shOffset + symSize * j + symSize ≤ content.length ∧
      ∃ s name, decodeSym (slice content ((sectionHeader content sym).shOffset + symSize * j)
          symSize) = s ∧
        (elfSymbols content sym).drop j = s :: (elfSymbols content sym).drop (j + 1) ∧
        symbolName content str s = some name := by
  have hcount : (elfSymbols content sym).length = (sectionHeader content sym).shSize / symSize := by
    simp [elfSymbols]
  have hnext : symSize * j + symSize ≤ (sectionHeader content sym).shSize := by
    rw [← Nat.mul_succ]
    exact (Nat.mul_le_mul_left _ hj).trans (Nat.mul_div_le _ _)
  have hentry : (elfSymbols content sym).drop j =
      decodeSym (slice content ((sectionHeader content sym).shOffset + symSize * j) symSize) ::
        (elfSymbols content sym).drop (j + 1) := by
    rw [List.drop_eq_getElem_cons (by rwa [hcount])]
    simp [elfSymbols]
  have hmem := List.mem_of_mem_drop (hentry ▸ List.mem_cons_self)
  obtain ⟨name, hname⟩ := Option.ne_none_iff_exists'.1 (h.symbol_names _ hmem)
  have htable := h.symtab
  exact ⟨lt_of_lt_of_le (Nat.lt_add_of_pos_right (by decide)) hnext, by omega, _, name, rfl, hentry,
    hname⟩

theorem WellFormedElf.symbolLoop (h : WellFormedElf content sym str) (symbol : List UInt8) {j : Nat}
    (hj : j ≤ (sectionHeader content sym).shSize / symSize) {fuel : Nat}
    (hfuel : (sectionHeader content sym).shSize / symSize - j < fuel) :
    CkptRestart.symbolLoop (sectionHeader content sym)
        (some (sectionData content (sectionHeader content str))) symbol fuel
        ⟨content, (sectionHeader content sym).shOffset + symSize * j⟩ =
      .ok (firstValue (((elfSymbols content sym).drop j).find? (named content str symbol))) := by
  induction fuel generalizing j with
  | zero => exact absurd hfuel (Nat.not_lt_zero _)
  | succ fuel ih =>
      have hoffset := h.tableOffset hj
      by_cases hend : j = (sectionHeader content sym).shSize / symSize
      · -- all entries have been read
        have hdrop : (elfSymbols content sym).drop j = [] := by
          rw [List.drop_eq_nil_iff, hend]
          simp [elfSymbols]
        have hstop : ¬ symSize * j < (sectionHeader content sym).shSize := by
          rw [hend, Nat.mul_div_cancel' h.symtab_size]
          exact lt_irrefl _
        rw [CkptRestart.symbolLoop, hoffset, if_neg hstop, hdrop]
        rfl
      · have hlt : j < (sectionHeader content sym).shSize / symSize := lt_of_le_of_ne hj hend
        rcases h.entry hlt with ⟨hgo, hin, s, name, hs, hentry, hname⟩
        have hread := @FileDesc.read_of_le
          ⟨content, (sectionHeader content sym).shOffset + symSize * j⟩ symSize hin
        have hpos : (sectionHeader content sym).shOffset + symSize * j + symSize =
            (sectionHeader content sym).shOffset + symSize * (j + 1) := by
          rw [Nat.mul_succ, Nat.add_assoc]
        have hstrIn : strIn (some (sectionData content (sectionHeader content str))) s.stName =
            .ok name := strIn_of_stringAt hname
        simp only [CkptRestart.symbolLoop, hoffset, if_pos hgo, hread, length_slice hin, ne_eq,
          not_true_eq_false, if_false, hpos, hs, hstrIn, Exec.ok_bind, hentry]
        by_cases hfirst : name = symbol
        · have hnamed : named content str symbol s = true := by simp [named, hname, hfirst]
          simp only [if_pos hfirst, List.find?_cons_of_pos hnamed]
          rfl
        · have hnamed : ¬ named content str symbol s = true := by simp [named, hname, hfirst]
          simp only [if_neg hfirst, List.find?_cons_of_neg hnamed]
          exact ih hlt (by omega)

/-- `get_symbol_offset`, once the table and its strings have been found in a file. -/
theorem WellFormedElf.getSymbolOffset_of_table (h : WellFormedElf content sym str)
    {files : List UInt8 → Option (List UInt8)} {libname : List UInt8} {junk : Elf64Shdr}
    {fd : FileDesc} {st : SymSearch}
    (htable : CkptRestart.getSymbolTable files junk libname = .ok (some (fd, st)))
    (hcontent : fd.content = content) (hsymtab : st.symtab = sectionHeader content sym)
    (hstrtab : st.strtab = some (sectionData content (sectionHeader content str)))
    (symbol : List UInt8) :
    CkptRestart.getSymbolOffset files junk libname symbol =
      .ok (firstValue ((elfSymbols content sym).find? (named content str symbol))) := by
  have hseek : (sectionHeader content sym).shOffset < 2 ^ 63 :=
    lt_of_le_of_lt (Nat.le_of_add_right_le h.symtab) h.length_lt
  have hfuel : (sectionHeader content sym).shSize / symSize - 0 < content.length + 1 := by
    have hdiv := Nat.div_le_self (sectionHeader content sym).shSize symSize
    have hin := h.symtab
    omega
  have hloop := h.symbolLoop symbol (Nat.zero_le _) hfuel
  simp only [CkptRestart.getSymbolOffset, htable, Exec.ok_bind, hsymtab, hstrtab,
    FileDesc.lseek_of_lt _ hseek, hcontent]
  exact hloop

/-- `get_symbol_offset` returns the value of the first entry of the name. -/
theorem WellFormedElf.getSymbolOffset (h : WellFormedElf content sym str)
    {files : List UInt8 → Option (List UInt8)} {libname : List UInt8}
    (hopen : files libname = some content) (junk : Elf64Shdr) (symbol : List UInt8) :
    CkptRestart.getSymbolOffset files junk libname symbol =
      .ok (firstValue ((elfSymbols content sym).find? (named content str symbol))) := by
  rcases h.getSymbolTable hopen junk with ⟨fd, st, htable, hcontent, hsymtab, hstrtab⟩
  exact h.getSymbolOffset_of_table htable hcontent hsymtab hstrtab symbol

end Sections

/-! ## Definitions and references -/

section Definitions

variable {content : List UInt8} {sym str : Nat}

/-- An entry of the name that the file defines, not only refers to. -/
def Defines (content : List UInt8) (str : Nat) (symbol : List UInt8) (s : Elf64Sym) : Prop :=
  symbolName content str s = some symbol ∧ s.stShndx ≠ shnUndef

instance (symbol : List UInt8) (s : Elf64Sym) : Decidable (Defines content str symbol s) :=
  inferInstanceAs (Decidable (_ ∧ _))

/-- The call returns the value of a definition of the symbol, and `-1` if there is none. -/
def FindsDefinition (content : List UInt8) (sym str : Nat) (symbol : List UInt8) (res : Exec Int) :
    Prop :=
  ∃ ret, res = .ok ret ∧
    ((∃ s ∈ elfSymbols content sym, Defines content str symbol s ∧ ret = toSigned s.stValue) ∨
      (∀ s ∈ elfSymbols content sym, ¬ Defines content str symbol s) ∧ ret = -1)

theorem stValue_lt {s : Elf64Sym} (h : s ∈ elfSymbols content sym) : s.stValue < wordSize := by
  rcases List.mem_map.1 h with ⟨j, _, rfl⟩
  exact wordAt_lt 8 8 _

theorem toSigned_inj {m n : Nat} (hm : m < wordSize) (hn : n < wordSize)
    (h : toSigned m = toSigned n) : m = n := by
  rw [← toUnsigned_toSigned hm, h, toUnsigned_toSigned hn]

/-- The lookup finds the definition exactly if the first entry of the name has the value of one, or
there is no definition and it has the value `-1`. -/
theorem findsDefinition_iff (h : WellFormedElf content sym str)
    {files : List UInt8 → Option (List UInt8)} {libname : List UInt8}
    (hopen : files libname = some content) (junk : Elf64Shdr) (symbol : List UInt8) :
    FindsDefinition content sym str symbol (getSymbolOffset files junk libname symbol) ↔
      ∀ pre s post, elfSymbols content sym = pre ++ s :: post →
        (∀ t ∈ pre, symbolName content str t ≠ some symbol) →
        symbolName content str s = some symbol →
        (∃ d ∈ elfSymbols content sym, Defines content str symbol d ∧ d.stValue = s.stValue) ∨
          (∀ d ∈ elfSymbols content sym, ¬ Defines content str symbol d) ∧
            s.stValue = wordSize - 1 := by
  have hminus : toSigned (wordSize - 1) = -1 := by decide
  rw [h.getSymbolOffset hopen junk symbol]
  constructor
  · rintro ⟨ret, hret, hfinds⟩ pre s post hsplit hpre hs
    have hfind : (elfSymbols content sym).find? (named content str symbol) = some s := by
      apply List.find?_eq_some_iff_append.2
      refine ⟨decide_eq_true hs, pre, post, hsplit, fun t ht => ?_⟩
      simpa [named] using hpre t ht
    have hmem : s ∈ elfSymbols content sym := List.mem_of_find?_eq_some hfind
    rw [hfind] at hret
    obtain rfl : toSigned s.stValue = ret := Exec.ok.inj hret
    rcases hfinds with ⟨d, hd, hdefines, hvalue⟩ | ⟨hnone, hvalue⟩
    · exact .inl ⟨d, hd, hdefines, (toSigned_inj (stValue_lt hmem) (stValue_lt hd) hvalue).symm⟩
    · refine .inr ⟨hnone, toSigned_inj (stValue_lt hmem) (by decide) ?_⟩
      rw [hvalue, hminus]
  · intro hfirst
    refine ⟨_, rfl, ?_⟩
    cases hfind : (elfSymbols content sym).find? (named content str symbol) with
    | none =>
        refine .inr ⟨fun s hs hdefines => ?_, rfl⟩
        exact List.find?_eq_none.1 hfind s hs (decide_eq_true hdefines.1)
    | some s =>
        obtain ⟨hs, pre, post, hsplit, hpre⟩ := List.find?_eq_some_iff_append.1 hfind
        have hbefore : ∀ t ∈ pre, symbolName content str t ≠ some symbol := by
          intro t ht
          simpa [named] using hpre t ht
        rcases hfirst pre s post hsplit hbefore (of_decide_eq_true hs) with
          ⟨d, hd, hdefines, hvalue⟩ | ⟨hnone, hvalue⟩
        · exact .inl ⟨d, hd, hdefines, congrArg toSigned hvalue.symm⟩
        · exact .inr ⟨hnone, (congrArg toSigned hvalue).trans hminus⟩

end Definitions

/-! ## A library that calls `mmap` -/

/-- The names of the sections and of the symbols. -/
def smallLibNames : List UInt8 :=
  [0] ++ cstr ['.', 's', 'y', 'm', 't', 'a', 'b'] ++ [0] ++ elfStrtabSect ++ [0] ++
    mmapSymbolName ++ [0] ++ sbrkSymbolName ++ [0]

/-- The entry of a section header, at the offset and of the size. -/
def shdrBytes (name type off size : Nat) : List UInt8 :=
  putWord 4 name ++ putWord 4 type ++ putWord 16 0 ++ putWord 8 off ++ putWord 8 size ++ putWord 24 0

def symBytes (name shndx value : Nat) : List UInt8 :=
  putWord 4 name ++ putWord 2 0 ++ putWord 2 shndx ++ putWord 8 value ++ putWord 8 0

/-- A shared object that defines `sbrk`, and only refers to `mmap`. -/
def smallLib : List UInt8 :=
  elfMag ++ [elfClass64, 1, 1, 0] ++ putWord 8 0 ++
    putWord 2 3 ++ putWord 2 62 ++ putWord 4 1 ++ putWord 8 0 ++ putWord 8 0 ++ putWord 8 64 ++
    putWord 4 0 ++ putWord 2 64 ++ putWord 2 56 ++ putWord 2 0 ++ putWord 2 64 ++ putWord 2 3 ++
    putWord 2 2 ++
  shdrBytes 0 0 0 0 ++ shdrBytes 1 shtSymtab 283 72 ++ shdrBytes 9 shtStrtab 256 27 ++
  smallLibNames ++
  symBytes 0 shnUndef 0 ++ symBytes 17 shnUndef 0 ++ symBytes 22 7 0x100

def smallLibName : List UInt8 := cstr ['l', 'i', 'b']

def smallLibFiles (name : List UInt8) : Option (List UInt8) :=
  if name = smallLibName then some smallLib else none

theorem smallLibFiles_name : smallLibFiles smallLibName = some smallLib := if_pos rfl

def zeroShdr : Elf64Shdr := ⟨0, 0, 0, 0⟩

theorem wellFormedElf_smallLib : WellFormedElf smallLib 1 2 where
  length_lt := by decide +kernel
  header := by decide +kernel
  shentsize := by decide +kernel
  sections := by decide +kernel
  shstrndx := by decide +kernel
  shstrtab := ⟨by decide +kernel, by decide +kernel, by decide +kernel⟩
  names := by decide +kernel
  debuglink := by
    intro i hi hname
    exact absurd hname ((by decide +kernel : ∀ i < (fileHeader smallLib).eShnum,
      sectionName smallLib i ≠ some elfDebuglinkSect) i hi)
  sym_lt := by decide +kernel
  symtab_iff := by decide +kernel
  symtab_size := by decide +kernel
  symtab := by decide +kernel
  str_lt := by decide +kernel
  strtab_iff := by decide +kernel
  strtab := ⟨by decide +kernel, by decide +kernel, by decide +kernel⟩
  symbol_names := by decide +kernel

/-- Of `sbrk` the definition is found. -/
theorem findsDefinition_sbrk :
    FindsDefinition smallLib 1 2 sbrkSymbolName
      (getSymbolOffset smallLibFiles zeroShdr smallLibName sbrkSymbolName) := by
  apply (findsDefinition_iff wellFormedElf_smallLib smallLibFiles_name zeroShdr sbrkSymbolName).2
  intro pre s post hsplit hpre hs
  have hmem : s ∈ elfSymbols smallLib 1 := by simp [hsplit]
  have hall : ∀ s ∈ elfSymbols smallLib 1, symbolName smallLib 2 s = some sbrkSymbolName →
      s.stShndx ≠ shnUndef := by decide +kernel
  exact .inl ⟨s, hmem, ⟨hs, hall s hmem hs⟩, rfl⟩

/-- Of `mmap`, which the file does not define, the value of the reference is returned. -/
theorem not_findsDefinition_mmap :
    WellFormedElf smallLib 1 2 ∧
      getSymbolOffset smallLibFiles zeroShdr smallLibName mmapSymbolName = .ok 0 ∧
      ¬ FindsDefinition smallLib 1 2 mmapSymbolName
        (getSymbolOffset smallLibFiles zeroShdr smallLibName mmapSymbolName) := by
  have hret : getSymbolOffset smallLibFiles zeroShdr smallLibName mmapSymbolName = .ok 0 := by
    rw [wellFormedElf_smallLib.getSymbolOffset smallLibFiles_name zeroShdr mmapSymbolName]
    decide +kernel
  have hundefined : ∀ s ∈ elfSymbols smallLib 1, ¬ Defines smallLib 2 mmapSymbolName s := by
    decide +kernel
  refine ⟨wellFormedElf_smallLib, hret, ?_⟩
  rintro ⟨ret, hres, ⟨s, hs, hdefines, _⟩ | ⟨_, hvalue⟩⟩
  · exact hundefined s hs hdefines
  · rw [hret] at hres
    exact absurd ((Exec.ok.inj hres).trans hvalue) (by decide)

end CkptRestart
