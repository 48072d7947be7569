import CkptRestart.Lib.LastWrite
import CkptRestart.TrampolineSetup

/-!
# DebugLink — files without a symbol table

A library that has been stripped names in its section `.gnu_debuglink` the file that its symbols are
in.  `getSymbolTable` tries that file next, with the variables as the first one has left them.

`reportsMissing_iff` says for which libraries a missing symbol table is reported, and the two results
come from one file.
-/

namespace CkptRestart

open Lib

/-! ## Files with sections -/

section File

variable (content : List UInt8)

def HasSymtab : Prop := ∃ i < (fileHeader content).eShnum, IsSymtab content i

def HasStrtab : Prop := ∃ i < (fileHeader content).eShnum, IsStrtab content i

def HasDebuglink : Prop := ∃ i < (fileHeader content).eShnum, IsDebuglink content i

instance : DecidablePred (IsSymtab content) := fun _ => inferInstanceAs (Decidable (_ = _))

instance : DecidablePred (IsStrtab content) := fun _ => inferInstanceAs (Decidable (_ ∧ _))

instance : DecidablePred (IsDebuglink content) := fun _ => inferInstanceAs (Decidable (_ ∧ _))

instance : Decidable (HasSymtab content) := inferInstanceAs (Decidable (∃ i < _, _))

instance : Decidable (HasStrtab content) := inferInstanceAs (Decidable (∃ i < _, _))

instance : Decidable (HasDebuglink content) := inferInstanceAs (Decidable (∃ i < _, _))

/-- An ELF64 file with any sections, or with no table of sections. -/
structure SectionedElf : Prop where
  length_lt : content.length < 2 ^ 63
  header : ehdrSize ≤ content.length
  sections : (fileHeader content).eShoff + shdrSize * (fileHeader content).eShnum ≤ content.length
  shentsize : 0 < (fileHeader content).eShnum → (fileHeader content).eShentsize = shdrSize
  shstrndx : 0 < (fileHeader content).eShnum →
    (fileHeader content).eShstrndx < (fileHeader content).eShnum
  shstrtab : 0 < (fileHeader content).eShnum →
    Located content (sectionHeader content (fileHeader content).eShstrndx)
  no_table : (fileHeader content).eShnum = 0 →
    (fileHeader content).eShoff = 0 ∧ (fileHeader content).eShstrndx = 0
  names : ∀ i < (fileHeader content).eShnum, sectionName content i ≠ none
  strtab : ∀ i < (fileHeader content).eShnum, IsStrtab content i →
    Located content (sectionHeader content i)
  debuglink : ∀ i < (fileHeader content).eShnum, IsDebuglink content i →
    Located content (sectionHeader content i) ∧ debugLink content i ≠ none

end File

/-- The path of a debug file. -/
def debugPath (name : List UInt8) : List UInt8 := debugFilesPath ++ chr '/' :: name

/-- Wherever the file links to a debug file, that is a readable one with the contents `debug`. -/
def LinksTo (files : List UInt8 → Option (List UInt8)) (content debug : List UInt8) : Prop :=
  ∀ i < (fileHeader content).eShnum, IsDebuglink content i → ∀ name, debugLink content i = some name →
    (debugPath name).length < pathMax ∧ files (debugPath name) = some debug ∧ SectionedElf debug

/-! ## One file -/

section Scan

variable {content : List UInt8}

theorem SectionedElf.sectionHeader_inFile (h : SectionedElf content) {i : Nat}
    (hi : i < (fileHeader content).eShnum) :
    (fileHeader content).eShoff + shdrSize * i + shdrSize ≤ content.length := by
  have hle : shdrSize * i + shdrSize ≤ shdrSize * (fileHeader content).eShnum := by
    rw [← Nat.mul_succ]
    exact Nat.mul_le_mul_left _ hi
  have := h.sections
  omega

/-- Whatever table there is, the names of the sections are read before any of them is needed. -/
theorem SectionedElf.readNames (h : SectionedElf content) (data : Option (List UInt8)) :
    ∃ rc shdr data', readElfSection ⟨content, ehdrSize⟩ (fileHeader content).eShstrndx
        (fileHeader content) data = .ok (rc, shdr, data', ⟨content, ehdrSize⟩) ∧
      (0 < (fileHeader content).eShnum → data' = some (sectionNames content)) := by
  have hpos : ehdrSize < 2 ^ 63 := by decide
  rcases Nat.eq_zero_or_pos (fileHeader content).eShnum with hzero | hsome
  · -- without a table the file header is read in the place of a section header
    rcases h.no_table hzero with ⟨hshoff, hshstrndx⟩
    have hoff : wrap ((fileHeader content).eShentsize * (fileHeader content).eShstrndx +
        (fileHeader content).eShoff) = 0 := by
      rw [hshoff, hshstrndx]
      rfl
    have hin : 0 + shdrSize ≤ content.length := h.header
    rcases readElfSection_of_le h.length_lt hoff hin hpos data with ⟨rc, data', hrun, _⟩
    exact ⟨rc, _, data', hrun, fun hlt => absurd hzero (Nat.ne_of_gt hlt)⟩
  · have hrun := readElfSection_of_located h.length_lt (h.shentsize hsome)
      (h.sectionHeader_inFile (h.shstrndx hsome)) (h.shstrtab hsome) hpos data
    exact ⟨0, _, _, hrun, fun _ => rfl⟩

/-- The variables before round `n` of the scan, which found them as `st₀`. -/
structure ScannedTo (content : List UInt8) (st₀ : SymSearch) (n : Nat) (s : FileDesc × SymSearch) :
    Prop where
  fd : s.1 = ⟨content, (fileHeader content).eShoff + shdrSize * n⟩
  shsectData : s.2.shsectData = st₀.shsectData
  symtab : Latest (IsSymtab content) (fun j => (sectionHeader content j, true)) n
    (st₀.symtab, st₀.symtabFound) (s.2.symtab, s.2.symtabFound)
  strtab : Latest (IsStrtab content) (fun j => some (sectionData content (sectionHeader content j))) n
    st₀.strtab s.2.strtab
  debuglink : Latest (IsDebuglink content)
    (fun j => ((debugLink content j).map fun name => (debugPath name).take (pathMax - 1), true)) n
    (some st₀.debugLibName, st₀.foundDebugLib) (some s.2.debugLibName, s.2.foundDebugLib)

theorem SectionedElf.scanSection (h : SectionedElf content) {st₀ : SymSearch}
    (hshsect : st₀.shsectData = some (sectionNames content)) {i : Nat}
    (hi : i < (fileHeader content).eShnum) {s : FileDesc × SymSearch}
    (hinv : ScannedTo content st₀ i s) :
    ∃ s', CkptRestart.scanSection (fileHeader content) s i = .ok s' ∧
      ScannedTo content st₀ (i + 1) s' := by
  rcases s with ⟨fd, st⟩
  obtain rfl : fd = _ := hinv.fd
  have hsome := Nat.zero_lt_of_lt hi
  rcases scanSection_scanned h.length_lt (h.shentsize hsome) (h.sectionHeader_inFile hi)
    (hinv.shsectData.trans hshsect) (h.names i hi) (h.strtab i hi) (h.debuglink i hi) with
    ⟨st', hrun, hscanned⟩
  refine ⟨_, hrun, rfl, hscanned.shsectData.trans hinv.shsectData, ?_, ?_, ?_⟩
  · by_cases his : IsSymtab content i
    · rw [(hscanned.symtab his).1, (hscanned.symtab his).2]
      exact latest_take _ _ his
    · rw [(hscanned.symtab_of_not his).1, (hscanned.symtab_of_not his).2]
      exact hinv.symtab.skip his
  · by_cases his : IsStrtab content i
    · rw [hscanned.strtab his]
      exact latest_take _ _ his
    · rw [hscanned.strtab_of_not his]
      exact hinv.strtab.skip his
  · by_cases his : IsDebuglink content i
    · obtain ⟨name, hname⟩ := Option.ne_none_iff_exists'.1 (h.debuglink i hi his).2
      have htake := @latest_take _ (IsDebuglink content) i
        (fun j => ((debugLink content j).map fun name => (debugPath name).take (pathMax - 1), true))
        (some st₀.debugLibName, st₀.foundDebugLib) his
      rw [(hscanned.debuglink his name hname).1, (hscanned.debuglink his name hname).2]
      simp only [hname, Option.map_some] at htake
      exact htake
    · rw [(hscanned.debuglink_of_not his).1, (hscanned.debuglink_of_not his).2]
      exact hinv.debuglink.skip his

/-- One round of `getSymbolTable`: the whole table of the file has been scanned. -/
theorem SectionedElf.scan (h : SectionedElf content)
    {files : List UInt8 → Option (List UInt8)} {lname : List UInt8}
    (hopen : files lname = some content) (tries : Nat) (st₀ : SymSearch) :
    ∃ names fd st, ScannedTo content { st₀ with shsectData := names } (fileHeader content).eShnum
        (fd, st) ∧
      symbolTableLoop files (tries + 1) lname st₀ =
        if st.symtabFound || !st.foundDebugLib then .ok (some (fd, st))
        else symbolTableLoop files tries st.debugLibName st := by
  have hstart : (⟨content, 0⟩ : FileDesc).pos + ehdrSize ≤ content.length := by
    simpa using h.header
  have hread := @FileDesc.read_of_le ⟨content, 0⟩ ehdrSize hstart
  have hlen : (slice content 0 ehdrSize).length = ehdrSize := length_slice hstart
  have hdecode : decodeEhdr (slice content 0 ehdrSize) = fileHeader content := rfl
  have hseek : (fileHeader content).eShoff < 2 ^ 63 :=
    lt_of_le_of_lt (Nat.le_of_add_right_le h.sections) h.length_lt
  rcases h.readNames st₀.shsectData with ⟨rc, shdr, names, hnames, hshsect⟩
  have hinit : ScannedTo content { st₀ with shsectData := names } 0
      (⟨content, (fileHeader content).eShoff⟩, { st₀ with shsectData := names }) :=
    ⟨rfl, rfl, latest_zero _ _ _, latest_zero _ _ _, latest_zero _ _ _⟩
  rcases Exec.steps_range (fun i hi s hinv =>
      h.scanSection (hshsect (Nat.zero_lt_of_lt hi)) hi hinv) hinit with ⟨⟨fd, st⟩, hscan, hinv⟩
  refine ⟨names, fd, st, hinv, ?_⟩
  have hpos : 0 + ehdrSize = ehdrSize := Nat.zero_add _
  simp only [symbolTableLoop, hopen, hread, hlen, ne_eq, not_true_eq_false, if_false, hdecode, hpos,
    hnames, Exec.ok_bind, FileDesc.lseek_of_lt _ hseek]
  rw [hscan]
  rfl

/-- `*symtab` and `*strtab` have been set from the file that the descriptor refers to. -/
def SetsBoth (out : FileDesc × SymSearch) : Prop :=
  (∃ i < (fileHeader out.1.content).eShnum, IsSymtab out.1.content i ∧
    out.2.symtab = sectionHeader out.1.content i) ∧
  ∃ i < (fileHeader out.1.content).eShnum, IsStrtab out.1.content i ∧
    out.2.strtab = some (sectionData out.1.content (sectionHeader out.1.content i))

variable {st₀ : SymSearch} {s : FileDesc × SymSearch}

theorem ScannedTo.setsBoth_iff (h : ScannedTo content st₀ (fileHeader content).eShnum s) :
    SetsBoth s ↔ HasSymtab content ∧ HasStrtab content := by
  have hcontent : s.1.content = content := congrArg FileDesc.content h.fd
  rw [SetsBoth, hcontent]
  constructor
  · rintro ⟨⟨i, hi, his, _⟩, ⟨j, hj, hjs, _⟩⟩
    exact ⟨⟨i, hi, his⟩, ⟨j, hj, hjs⟩⟩
  · rintro ⟨hsym, hstr⟩
    rcases h.symtab.of_exists hsym with ⟨i, hi, his, hheader⟩
    exact ⟨⟨i, hi, his, congrArg Prod.fst hheader⟩, h.strtab.of_exists hstr⟩

theorem ScannedTo.symtabFound_eq (h : ScannedTo content st₀ (fileHeader content).eShnum s)
    (hnew : st₀.symtabFound = false) : s.2.symtabFound = decide (HasSymtab content) := by
  by_cases hsym : HasSymtab content
  · rcases h.symtab.of_exists hsym with ⟨_, _, _, hheader⟩
    rw [decide_eq_true hsym]
    exact congrArg Prod.snd hheader
  · have hold := h.symtab.of_none fun j hj his => hsym ⟨j, hj, his⟩
    rw [decide_eq_false hsym, ← hnew]
    exact congrArg Prod.snd hold

theorem ScannedTo.foundDebugLib_eq (h : ScannedTo content st₀ (fileHeader content).eShnum s) :
    s.2.foundDebugLib = (st₀.foundDebugLib || decide (HasDebuglink content)) := by
  by_cases hlink : HasDebuglink content
  · rcases h.debuglink.of_exists hlink with ⟨_, _, _, hfound⟩
    rw [decide_eq_true hlink, Bool.or_true]
    exact congrArg Prod.snd hfound
  · have hold := h.debuglink.of_none fun j hj his => hlink ⟨j, hj, his⟩
    rw [decide_eq_false hlink, Bool.or_false]
    exact congrArg Prod.snd hold

/-- The name that is tried next is the path of a debug file. -/
theorem ScannedTo.opens_debug {files : List UInt8 → Option (List UInt8)} {debug : List UInt8}
    (h : ScannedTo content st₀ (fileHeader content).eShnum s) (hlink : HasDebuglink content)
    (hlinks : LinksTo files content debug) :
    files s.2.debugLibName = some debug ∧ SectionedElf debug := by
  rcases h.debuglink.of_exists hlink with ⟨j, hj, his, hfound⟩
  obtain ⟨name, hname, hpath⟩ := Option.map_eq_some_iff.1 (congrArg Prod.fst hfound).symm
  rcases hlinks j hj his name hname with ⟨hshort, hopen, hdebug⟩
  rw [← hpath, List.take_of_length_le (Nat.le_sub_one_of_lt hshort)]
  exact ⟨hopen, hdebug⟩

end Scan

/-! ## A file and its debug file -/

section Library

variable {files : List UInt8 → Option (List UInt8)} {libname content debug : List UInt8}

/-- All that `getSymbolTable` can do. -/
theorem getSymbolTable_cases (h : SectionedElf content) (hopen : files libname = some content)
    (hlinks : LinksTo files content debug) (junk : Elf64Shdr) :
    ((HasSymtab content ∨ ¬ HasDebuglink content) ∧ ∃ st₀ out,
        ScannedTo content st₀ (fileHeader content).eShnum out ∧
          getSymbolTable files junk libname = .ok (some out)) ∨
    (¬ HasSymtab content ∧ HasDebuglink content ∧ HasSymtab debug ∧ ∃ st₀ out,
        ScannedTo debug st₀ (fileHeader debug).eShnum out ∧
          getSymbolTable files junk libname = .ok (some out)) ∨
    (¬ HasSymtab content ∧ HasDebuglink content ∧ ¬ HasSymtab debug ∧
      getSymbolTable files junk libname = .ok none) := by
  rcases h.scan hopen 1 ⟨junk, none, none, [], false, false⟩ with ⟨names, fd, st, hscan, hrun⟩
  have hfound := hscan.symtabFound_eq rfl
  have hdebug := hscan.foundDebugLib_eq
  simp only [Bool.false_or] at hfound hdebug
  rw [hfound, hdebug] at hrun
  by_cases hstop : HasSymtab content ∨ ¬ HasDebuglink content
  · left
    refine ⟨hstop, _, (fd, st), hscan, ?_⟩
    rw [getSymbolTable, hrun, if_pos (by simpa using hstop)]
  · -- the second file is scanned, with the flags of the first
    right
    obtain ⟨hnosym, hlink⟩ := not_or.1 hstop
    have hlink := not_not.1 hlink
    rw [if_neg (by simpa using hstop)] at hrun
    rcases hscan.opens_debug hlink hlinks with ⟨hopen', hsectioned⟩
    rcases hsectioned.scan hopen' 0 st with ⟨names', fd', st', hscan', hrun'⟩
    rw [decide_eq_false hnosym] at hfound
    have hfound' : st'.symtabFound = decide (HasSymtab debug) := hscan'.symtabFound_eq hfound
    have hdebug' : st'.foundDebugLib = true := by
      have hold := hscan'.foundDebugLib_eq
      simp only [hdebug, decide_eq_true hlink, Bool.true_or] at hold
      exact hold
    rw [hdebug', Bool.not_true, Bool.or_false] at hrun'
    by_cases hsym' : HasSymtab debug
    · left
      refine ⟨hnosym, hlink, hsym', _, (fd', st'), hscan', ?_⟩
      rw [getSymbolTable, hrun, hrun', if_pos (hfound'.trans (decide_eq_true hsym'))]
    · right
      refine ⟨hnosym, hlink, hsym', ?_⟩
      rw [getSymbolTable, hrun, hrun', if_neg (by simp [hfound', hsym'])]
      rfl

/-- The symbols of the library `content` are in the section `sym` of `table`, which is the library
itself or its debug file. -/
structure SymbolsIn (files : List UInt8 → Option (List UInt8)) (libname content table : List UInt8)
    (sym str : Nat) : Prop where
  opens : files libname = some content
  wellFormed : WellFormedElf table sym str
  source : table = content ∨
    (SectionedElf content ∧ ¬ HasSymtab content ∧ HasDebuglink content ∧ LinksTo files content table)

theorem SymbolsIn.getSymbolOffset {table : List UInt8} {sym str : Nat}
    (h : SymbolsIn files libname content table sym str) (junk : Elf64Shdr) (symbol : List UInt8) :
    CkptRestart.getSymbolOffset files junk libname symbol =
      .ok (firstValue ((elfSymbols table sym).find? (named table str symbol))) := by
  have htable := h.wellFormed
  rcases h.source with rfl | ⟨hsectioned, hnosym, hlink, hlinks⟩
  · exact htable.getSymbolOffset h.opens junk symbol
  · have hsym : IsSymtab table sym := (htable.symtab_iff sym htable.sym_lt).2 rfl
    have hstr : IsStrtab table str := (htable.strtab_iff str htable.str_lt).2 rfl
    rcases getSymbolTable_cases hsectioned h.opens hlinks junk with
      ⟨hstop, _⟩ | ⟨_, _, _, st₀, ⟨fd, st⟩, hscan, hrun⟩ | ⟨_, _, hnosym', _⟩
    · exact absurd hstop (not_or.2 ⟨hnosym, not_not.2 hlink⟩)
    · -- the file has one table and one section with its strings
      rcases hscan.symtab.of_exists ⟨sym, htable.sym_lt, hsym⟩ with ⟨i, hi, his, hheader⟩
      rcases hscan.strtab.of_exists ⟨str, htable.str_lt, hstr⟩ with ⟨j, hj, hjs, hdata⟩
      obtain rfl := (htable.symtab_iff i hi).1 his
      obtain rfl := (htable.strtab_iff j hj).1 hjs
      exact htable.getSymbolOffset_of_table hrun (congrArg FileDesc.content hscan.fd)
        (congrArg Prod.fst hheader) hdata symbol
    · exact absurd ⟨sym, htable.sym_lt, hsym⟩ hnosym'

/-- A symbol table that is missing in both files is reported for every symbol, and with a descriptor
come a symbol table and its strings from one file. -/
structure ReportsMissing (files : List UInt8 → Option (List UInt8))
    (libname content debug : List UInt8) : Prop where
  missing : ¬ HasSymtab content → (HasDebuglink content → ¬ HasSymtab debug) → ∀ junk symbol,
    getSymbolOffset files junk libname symbol = .ok (-1)
  descriptor : ∀ junk out, getSymbolTable files junk libname = .ok (some out) → SetsBoth out

/-- This is so exactly for a file with a symbol table and the strings, and for a file that has only a
link, to a file with the strings if with a symbol table. -/
theorem reportsMissing_iff (h : SectionedElf content) (hopen : files libname = some content)
    (hlinks : LinksTo files content debug) :
    ReportsMissing files libname content debug ↔
      (HasSymtab content ∧ HasStrtab content) ∨
        (¬ HasSymtab content ∧ HasDebuglink content ∧ (HasSymtab debug → HasStrtab debug)) := by
  have hcases := fun junk => getSymbolTable_cases h hopen hlinks junk
  constructor
  · intro hreports
    rcases hcases ⟨0, 0, 0, 0⟩ with ⟨_, st₀, out, hscan, hrun⟩ |
      ⟨hnosym, hlink, _, st₀, out, hscan, hrun⟩ | ⟨hnosym, hlink, hnosym', _⟩
    · exact .inl (hscan.setsBoth_iff.1 (hreports.descriptor _ _ hrun))
    · exact .inr ⟨hnosym, hlink, fun _ =>
        (hscan.setsBoth_iff.1 (hreports.descriptor _ _ hrun)).2⟩
    · exact .inr ⟨hnosym, hlink, fun hsym => absurd hsym hnosym'⟩
  · intro hwhen
    constructor
    · intro hnosym hnone junk symbol
      -- without a symbol table there is a link
      have hlink : HasDebuglink content := by
        rcases hwhen with ⟨hsym, _⟩ | ⟨_, hlink, _⟩
        · exact absurd hsym hnosym
        · exact hlink
      rcases hcases junk with ⟨hstop, _⟩ | ⟨_, _, hsym', _⟩ | ⟨_, _, _, hrun⟩
      · exact absurd hstop (not_or.2 ⟨hnosym, not_not.2 hlink⟩)
      · exact absurd hsym' (hnone hlink)
      · rw [getSymbolOffset, hrun]
        rfl
    · intro junk out hout
      rcases hcases junk with ⟨hstop, st₀, out', hscan, hrun⟩ |
        ⟨hnosym, hlink, hsym', st₀, out', hscan, hrun⟩ | ⟨_, _, _, hrun⟩
      · obtain rfl : out' = out := by simpa [hrun] using hout
        apply hscan.setsBoth_iff.2
        rcases hwhen with hboth | ⟨hnosym, hlink, _⟩
        · exact hboth
        · exact absurd hstop (not_or.2 ⟨hnosym, not_not.2 hlink⟩)
      · obtain rfl : out' = out := by simpa [hrun] using hout
        apply hscan.setsBoth_iff.2
        rcases hwhen with ⟨hsym, _⟩ | ⟨_, _, hstr⟩
        · exact absurd hsym hnosym
        · exact ⟨hsym', hstr hsym'⟩
      · simp [hrun] at hout

end Library

/-! ## Stripped libraries -/

/-- The names of the sections, and the name of a debug file. -/
def strippedNames : List UInt8 :=
  [0] ++ elfDebuglinkSect ++ [0] ++ cstr ['d'] ++ [0]

/-- A shared object with a section of the type for the name `.gnu_debuglink`, and the section with the
names of the sections. -/
def strippedLibOf (type : Nat) : List UInt8 :=
  elfMag ++ [elfClass64, 1, 1, 0] ++ putWord 8 0 ++
    putWord 2 3 ++ putWord 2 62 ++ putWord 4 1 ++ putWord 8 0 ++ putWord 8 0 ++ putWord 8 64 ++
    putWord 4 0 ++ putWord 2 64 ++ putWord 2 56 ++ putWord 2 0 ++ putWord 2 64 ++ putWord 2 3 ++
    putWord 2 2 ++
  shdrBytes 0 0 0 0 ++ shdrBytes 1 type 272 2 ++ shdrBytes 0 shtStrtab 256 18 ++ strippedNames

/-- The one with a link to a debug file, which is `smallLib`. -/
def linkedLib : List UInt8 := strippedLibOf shtProgbits

/-- The one without: its first section is nothing. -/
def strippedLib : List UInt8 := strippedLibOf 0

def strippedFiles (content : List UInt8) (name : List UInt8) : Option (List UInt8) :=
  if name = smallLibName then some content
  else if name = debugPath (cstr ['d']) then some smallLib
  else none

theorem strippedFiles_name (content : List UInt8) :
    strippedFiles content smallLibName = some content := if_pos rfl

theorem sectionedElf_linkedLib : SectionedElf linkedLib where
  length_lt := by decide +kernel
  header := by decide +kernel
  sections := by decide +kernel
  shentsize := by decide +kernel
  shstrndx := by decide +kernel
  shstrtab := fun _ => ⟨by decide +kernel, by decide +kernel, by decide +kernel⟩
  no_table := by decide +kernel
  names := by decide +kernel
  strtab := by
    intro i hi his
    exact absurd his ((by decide +kernel : ∀ i < (fileHeader linkedLib).eShnum,
      ¬ IsStrtab linkedLib i) i hi)
  debuglink := by
    intro i hi his
    obtain rfl : i = 1 := (by decide +kernel : ∀ i < (fileHeader linkedLib).eShnum,
      IsDebuglink linkedLib i → i = 1) i hi his
    exact ⟨⟨by decide +kernel, by decide +kernel, by decide +kernel⟩, by decide +kernel⟩

theorem sectionedElf_strippedLib : SectionedElf strippedLib where
  length_lt := by decide +kernel
  header := by decide +kernel
  sections := by decide +kernel
  shentsize := by decide +kernel
  shstrndx := by decide +kernel
  shstrtab := fun _ => ⟨by decide +kernel, by decide +kernel, by decide +kernel⟩
  no_table := by decide +kernel
  names := by decide +kernel
  strtab := by
    intro i hi his
    exact absurd his ((by decide +kernel : ∀ i < (fileHeader strippedLib).eShnum,
      ¬ IsStrtab strippedLib i) i hi)
  debuglink := by
    intro i hi his
    exact absurd his ((by decide +kernel : ∀ i < (fileHeader strippedLib).eShnum,
      ¬ IsDebuglink strippedLib i) i hi)

theorem WellFormedElf.sectioned {content : List UInt8} {sym str : Nat}
    (h : WellFormedElf content sym str) : SectionedElf content where
  length_lt := h.length_lt
  header := h.header
  sections := h.sections
  shentsize := fun _ => h.shentsize
  shstrndx := fun _ => h.shstrndx
  shstrtab := fun _ => h.shstrtab
  no_table := fun hzero => absurd h.shstrndx (by omega)
  names := h.names
  strtab := by
    intro i hi his
    obtain rfl := (h.strtab_iff i hi).1 his
    exact h.strtab
  debuglink := fun i hi his => h.debuglink i hi his.2

/-- A library whose symbols are in another file. -/
theorem reportsMissing_linkedLib :
    ReportsMissing (strippedFiles linkedLib) smallLibName linkedLib smallLib := by
  refine (reportsMissing_iff sectionedElf_linkedLib (strippedFiles_name _) ?_).2 ?_
  · intro i hi his name hname
    obtain rfl : i = 1 := (by decide +kernel : ∀ i < (fileHeader linkedLib).eShnum,
      IsDebuglink linkedLib i → i = 1) i hi his
    obtain rfl : cstr ['d'] = name :=
      Option.some.inj ((by decide +kernel : some (cstr ['d']) = debugLink linkedLib 1).trans hname)
    exact ⟨by decide +kernel, by decide +kernel, wellFormedElf_smallLib.sectioned⟩
  · exact .inr ⟨by decide +kernel, by decide +kernel, fun _ => by decide +kernel⟩

/-- A library without symbols and without a link: the section header that nobody has set is used, here
one of a table of one entry, and its names are looked up at a null pointer. -/
theorem not_reportsMissing_strippedLib :
    SectionedElf strippedLib ∧ ¬ HasSymtab strippedLib ∧ ¬ HasDebuglink strippedLib ∧
      getSymbolOffset (strippedFiles strippedLib) ⟨0, shtSymtab, 64, symSize⟩ smallLibName
        mmapSymbolName = .exited ∧
      ¬ ReportsMissing (strippedFiles strippedLib) smallLibName strippedLib smallLib := by
  have hnosym : ¬ HasSymtab strippedLib := by decide +kernel
  have hnolink : ¬ HasDebuglink strippedLib := by decide +kernel
  have hrun : getSymbolOffset (strippedFiles strippedLib) ⟨0, shtSymtab, 64, symSize⟩ smallLibName
      mmapSymbolName = .exited := by decide +kernel
  refine ⟨sectionedElf_strippedLib, hnosym, hnolink, hrun, fun hreports => ?_⟩
  have hminus := hreports.missing hnosym (fun hlink => absurd hlink hnolink)
    ⟨0, shtSymtab, 64, symSize⟩ mmapSymbolName
  rw [hrun] at hminus
  cases hminus

end CkptRestart
