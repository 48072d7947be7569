import CkptRestart.CustomLoader.Recorded

/-!
# Symbols — where the functions of ld.so are

`safeLoadLib` takes a function to be as far from the base as the value of its symbol.
`safeLoadLib_functions` says that it is there if the first segment keeps the base (see `Image`),
whatever mappings fail behind that segment.
-/

namespace CkptRestart

open Lib

/-- A mapping from the file has put the byte for the address `value`, which the segment has, to `x`. -/
def MapEvent.Puts (e : MapEvent) (p : Elf64Phdr) (value x : Nat) : Prop :=
  e.ret ≠ mapFailed ∧ e.call.flags &&& mapAnonymous = 0 ∧
    (p.pVaddr ≤ value ∧ value < p.pVaddr + p.pFilesz) ∧ x = e.ret + (value - roundDown p.pVaddr)

instance (e : MapEvent) (p : Elf64Phdr) (value x : Nat) : Decidable (e.Puts p value x) :=
  inferInstanceAs (Decidable (_ ∧ _ ∧ (_ ∧ _) ∧ _))

/-- One of the loader's mappings has. -/
def Loader.Puts (content : List UInt8) (ld : Loader) (value x : Nat) : Prop :=
  ∃ e ∈ ld.calls, e.Puts (programHeader content e.header) value x

instance (content : List UInt8) (ld : Loader) (value x : Nat) : Decidable (ld.Puts content value x) :=
  inferInstanceAs (Decidable (∃ e ∈ ld.calls, _))

/-- The first segment starts in the first page and has no pages behind those of the file. -/
def KeepsBase (content : List UInt8) : Prop :=
  ∀ first ∈ (loadSegments content).head?, first.pVaddr < pageSize ∧
    roundUp (first.pVaddr + first.pMemsz) ≤ roundUp (first.pVaddr + first.pFilesz)

/-- The calls are for segments, and what is mapped from the file is where the base says. -/
def MappedAt (content : List UInt8) (b : Nat) (calls : List MapEvent) : Prop :=
  ∀ e ∈ calls, programHeader content e.header ∈ loadSegments content ∧
    (e.ret ≠ mapFailed → e.call.flags &&& mapAnonymous = 0 →
      e.ret = b + roundDown (programHeader content e.header).pVaddr)

section Loading

variable {env : LoaderEnv} {content : List UInt8}

/-- The mappings of one more segment. -/
theorem MappedAt.segment {b i : Nat} {ld ld' : Loader} {rc : Nat} {new : List MapEvent}
    (h : MappedAt content b ld.calls) (hheader : ld.header = i)
    (hmem : programHeader content i ∈ loadSegments content)
    (hres : SegmentResult env content (programHeader content i) b ld rc ld' new) :
    MappedAt content b ld'.calls := by
  intro e he
  rw [hres.calls] at he
  rcases List.mem_append.1 he with he | he
  · exact h e he
  · obtain ⟨hindex, hret⟩ := hres.placed e he
    rw [hindex, hheader]
    exact ⟨hmem, hret⟩

/-- With the first `i` headers read: the base that is returned is null, or is that of the rank, and then
the loader goes on with it. -/
structure AtBase (rankId : Int) (content : List UInt8) (i : Nat) (st : HeaderLoop) : Prop where
  start : segmentsUpTo content i = [] →
    st.firstTime = true ∧ st.loader.firstTime = true ∧ st.loader.calls = []
  later : segmentsUpTo content i ≠ [] → st.firstTime = false ∧ (st.baseAddr = 0 ∨
    st.baseAddr = loadBase rankId ∧ st.loader.firstTime = false ∧
      st.loader.baseAddress = loadBase rankId ∧ MappedAt content (loadBase rankId) st.loader.calls)

/-- A segment, from a loader at the base of the rank. -/
theorem mapElfInterpreterLoadSegment_atBase (hlink : checkLibrary env.link libcName = none)
    (hl : Loadable env.rankId content) {i : Nat} (hmem : programHeader content i ∈ loadSegments content)
    {ld ld' : Loader} {rc : Nat} (hbase : (ld.setBase env.rankId).baseAddress = loadBase env.rankId)
    (hrun : mapElfInterpreterLoadSegment env content (programHeader content i) ld = .ok (rc, ld')) :
    ∃ new, SegmentResult env content (programHeader content i) (loadBase env.rankId) ld rc ld' new := by
  have hb : Base (loadBase env.rankId) :=
    ⟨pageAligned_loadBase _, le_trans (Nat.le_add_right _ _) hl.window⟩
  obtain ⟨rc', ld'', new, hrun', hres⟩ :=
    mapElfInterpreterLoadSegment_result hlink (hl.segment _ hmem) (wordAt_lt 8 8 _) hb hbase
  obtain ⟨rfl, rfl⟩ : rc' = rc ∧ ld'' = ld' := by simpa using hrun'.symm.trans hrun
  exact ⟨new, hres⟩

theorem AtBase.loadSegment (hlink : checkLibrary env.link libcName = none)
    (hl : Loadable env.rankId content) (hkeeps : KeepsBase content) {i : Nat}
    (hi : i < (fileHeader content).ePhnum) (hload : (programHeader content i).pType = ptLoad)
    {st st' : HeaderLoop} (hinv : AtBase env.rankId content i st) (hheader : st.loader.header = i)
    (hrun : CkptRestart.loadSegment env content (programHeader content i) st = .ok st') :
    st'.fd = st.fd ∧ AtBase env.rankId content (i + 1) st' := by
  have hprefix := segmentsUpTo_append_prefix hi hload
  have hmem : programHeader content i ∈ loadSegments content :=
    hprefix.subset (List.mem_append_right _ (List.mem_singleton_self _))
  have hne : segmentsUpTo content (i + 1) ≠ [] := by
    rw [segmentsUpTo_succ, if_pos hload]
    exact List.append_ne_nil_of_right_ne_nil _ (List.cons_ne_nil _ _)
  obtain ⟨⟨rc, ld⟩, hmap, hst⟩ := Exec.bind_eq_ok_iff.1 hrun
  cases hst
  refine ⟨rfl, fun hnil => absurd hnil hne, fun _ => ⟨rfl, ?_⟩⟩
  dsimp only
  by_cases hnil : segmentsUpTo content i = []
  · -- the first segment, whose result is kept
    obtain ⟨hfirst, hloader, hcalls⟩ := hinv.start hnil
    rw [hnil] at hprefix
    have hhead : programHeader content i ∈ (loadSegments content).head? := by
      obtain ⟨rest, hrest⟩ := hprefix
      rw [← hrest]
      rfl
    obtain ⟨hlo, hhi⟩ := hkeeps _ hhead
    obtain ⟨new, hres⟩ := mapElfInterpreterLoadSegment_atBase hlink hl hmem
      (setBase_first env.rankId hloader) hmap
    rw [hfirst, if_pos rfl]
    rcases hres.result with hzero | ⟨hrc, hlater, hbase⟩
    · exact .inl hzero
    · rw [hloader, nextBase, if_pos rfl, lastMapping_eq hlo hhi] at hrc hbase
      have hstart : MappedAt content (loadBase env.rankId) st.loader.calls := by
        simp [MappedAt, hcalls]
      exact .inr ⟨hrc, hlater, hbase, hstart.segment hheader hmem hres⟩
  · -- a later one, whose result is not
    obtain ⟨hfirst, hzero | ⟨hbaseAddr, hloader, haddr, hmapped⟩⟩ := hinv.later hnil
    · simp [hfirst, hzero]
    · obtain ⟨new, hres⟩ := mapElfInterpreterLoadSegment_atBase hlink hl hmem
        ((setBase_later env.rankId hloader).trans haddr) hmap
      have hnext : ld.firstTime = false ∧ ld.baseAddress = loadBase env.rankId := by
        rcases hres.base with ⟨hsame, hbase⟩ | ⟨hlater, hbase⟩
        · exact ⟨hsame.trans hloader, hbase⟩
        · rw [hloader, nextBase, if_neg Bool.false_ne_true] at hbase
          exact ⟨hlater, hbase⟩
      right
      simp only [hfirst, Bool.false_eq_true, if_false]
      exact ⟨hbaseAddr, hnext.1, hnext.2, hmapped.segment hheader hmem hres⟩

theorem AtBase.loadHeader (hlink : checkLibrary env.link libcName = none)
    (hl : Loadable env.rankId content) (hkeeps : KeepsBase content) {i : Nat}
    (hi : i < (fileHeader content).ePhnum) {st st' : HeaderLoop}
    (hfd : st.fd = ⟨content, (fileHeader content).ePhoff + phdrSize * i⟩)
    (hinv : AtBase env.rankId content i st)
    (hrun : CkptRestart.loadHeader env st i = .ok st') :
    st'.fd = ⟨content, (fileHeader content).ePhoff + phdrSize * (i + 1)⟩ ∧
      AtBase env.rankId content (i + 1) st' := by
  rw [hl.loadHeader_eq hi hfd] at hrun
  split at hrun
  · next hload =>
      have hbefore : AtBase env.rankId content i { st with
          fd := ⟨content, (fileHeader content).ePhoff + phdrSize * (i + 1)⟩
          loader := { st.loader with header := i } } := ⟨hinv.start, hinv.later⟩
      exact hbefore.loadSegment hlink hl hkeeps hi hload rfl hrun
  · next hload =>
      have hsame : segmentsUpTo content (i + 1) = segmentsUpTo content i := by
        rw [segmentsUpTo_succ, if_neg hload, List.append_nil]
      cases hrun
      exact ⟨rfl, by rw [hsame]; exact hinv.start, by rw [hsame]; exact hinv.later⟩

/-- `load_elf_interpreter` does not set the two fields for the functions. -/
theorem loadElfInterpreter_fields {ld ld' : Loader} {baseAddr entry : Nat} {info info' : DynObjInfo}
    (hrun : loadElfInterpreter env content info ld = .ok (baseAddr, entry, info', ld')) :
    info'.mmapAddr = info.mmapAddr ∧ info'.sbrkAddr = info.sbrkAddr := by
  unfold loadElfInterpreter at hrun
  split at hrun
  split at hrun
  · cases hrun
  split at hrun
  · cases hrun
  split at hrun
  split at hrun
  · cases hrun
  obtain ⟨st, _, hst⟩ := Exec.bind_eq_ok_iff.1 hrun
  cases hst
  exact ⟨rfl, rfl⟩

/-- `safeLoadLib` loads the file and adds the values of the two symbols to the base. -/
theorem safeLoadLib_addrs {name : List UInt8}
    (hfile : env.files (env.elfInterpreter name) = some content) {ld ld' : Loader}
    {info : DynObjInfo} (hrun : safeLoadLib env name ld = .ok (info, ld')) :
    ∃ entry info' mmapOffset sbrkOffset,
      loadElfInterpreter env content .zero ld = .ok (info.baseAddr, entry, info', ld') ∧
      getSymbolOffset env.files env.junk name mmapSymbolName = .ok mmapOffset ∧
      getSymbolOffset env.files env.junk name sbrkSymbolName = .ok sbrkOffset ∧
      (info.mmapAddr = 0 ∧ info.sbrkAddr = 0 ∨
        info.mmapAddr = toUnsigned (info.baseAddr + mmapOffset) ∧
          info.sbrkAddr = toUnsigned (info.baseAddr + sbrkOffset)) := by
  simp only [safeLoadLib, hfile] at hrun
  obtain ⟨⟨baseAddr, entry, info₁, ld₁⟩, hload, hrest⟩ := Exec.bind_eq_ok_iff.1 hrun
  obtain ⟨mmapOffset, hmmap, hrest⟩ := Exec.bind_eq_ok_iff.1 hrest
  obtain ⟨sbrkOffset, hsbrk, hrest⟩ := Exec.bind_eq_ok_iff.1 hrest
  have hzero := loadElfInterpreter_fields hload
  refine ⟨entry, info₁, mmapOffset, sbrkOffset, ?_, hmmap, hsbrk, ?_⟩
  · cases hrest
    rw [hload]
    dsimp only
    split <;> rfl
  · cases hrest
    dsimp only
    split
    · exact .inl hzero
    · exact .inr ⟨rfl, rfl⟩

/-- What is mapped from the file is as far from the base as the file says. -/
theorem loadElfInterpreter_puts (hlink : checkLibrary env.link libcName = none)
    (hl : Loadable env.rankId content) (hkeeps : KeepsBase content) {space : AddrSpace}
    {table : MmapTable} {info info' : DynObjInfo} {baseAddr entry : Nat} {ld : Loader}
    (hrun : loadElfInterpreter env content info (.start space table) =
      .ok (baseAddr, entry, info', ld))
    (hne : baseAddr ≠ 0) {value x : Nat} (hputs : ld.Puts content value x) :
    x = baseAddr + value ∧ x < wordSize := by
  rw [hl.loadElfInterpreter_eq] at hrun
  obtain ⟨st, hsteps, hst⟩ := Exec.bind_eq_ok_iff.1 hrun
  cases hst
  have hinit : AtBase env.rankId content 0
      ⟨⟨content, (fileHeader content).ePhoff⟩, true, 0, .start space table⟩ :=
    ⟨fun _ => ⟨rfl, rfl, rfl⟩, fun hne => absurd rfl hne⟩
  have hinv := @Exec.steps_range_of_ok _ (CkptRestart.loadHeader env)
    (fun i st => st.fd = ⟨content, (fileHeader content).ePhoff + phdrSize * i⟩ ∧
      AtBase env.rankId content i st) _
    (fun i hi _ _ hst hstep => hst.2.loadHeader hlink hl hkeeps hi hst.1 hstep) _ _ ⟨rfl, hinit⟩
    hsteps
  obtain ⟨e, he, hret, hfromFile, ⟨hlo, hhi⟩, hx⟩ := hputs
  -- a mapping has been made, so there is a first segment
  have hsome : segmentsUpTo content (fileHeader content).ePhnum ≠ [] := by
    intro hnil
    rw [(hinv.2.start hnil).2.2] at he
    exact absurd he List.not_mem_nil
  obtain ⟨hbase, -, -, hmapped⟩ := (hinv.2.later hsome).2.resolve_left hne
  have hdown : roundDown (programHeader content e.header).pVaddr ≤ value :=
    le_trans (Nat.div_mul_le_self _ _) hlo
  obtain ⟨hmem, hplace⟩ := hmapped e he
  have hsum : x = st.baseAddr + value := by
    rw [hx, hplace hret hfromFile, hbase, Nat.add_assoc, Nat.add_sub_cancel' hdown]
  refine ⟨hsum, ?_⟩
  have hend := (hl.segment _ hmem).fileEnd_le
  have hwindow := hl.window
  rw [hsum, hbase]
  unfold ldSoWindow at *
  unfold wordSize
  omega

/-- If the two fields are set, they are where the functions of ld.so have been mapped. -/
theorem safeLoadLib_functions (hlink : checkLibrary env.link libcName = none)
    (hl : Loadable env.rankId content) (hkeeps : KeepsBase content) {name : List UInt8}
    (hfile : env.files (env.elfInterpreter name) = some content) {space : AddrSpace}
    {table : MmapTable} {info : DynObjInfo} {ld : Loader}
    (hrun : safeLoadLib env name (.start space table) = .ok (info, ld)) (hbase : info.baseAddr ≠ 0)
    (hset : ¬ (info.mmapAddr = 0 ∧ info.sbrkAddr = 0)) {value x : Nat} (hputs : ld.Puts content value x) :
    (getSymbolOffset env.files env.junk name mmapSymbolName = .ok (value : Int) →
      info.mmapAddr = x) ∧
    (getSymbolOffset env.files env.junk name sbrkSymbolName = .ok (value : Int) →
      info.sbrkAddr = x) := by
  obtain ⟨entry, info', mmapOffset, sbrkOffset, hload, hmmap, hsbrk, haddrs⟩ :=
    safeLoadLib_addrs hfile hrun
  obtain ⟨hmmapAddr, hsbrkAddr⟩ := haddrs.resolve_left hset
  obtain ⟨hx, hlt⟩ := loadElfInterpreter_puts hlink hl hkeeps hload hbase hputs
  rw [hx] at hlt
  have hsum : toUnsigned (info.baseAddr + (value : Int)) = x := by
    rw [← Int.natCast_add, toUnsigned_natCast hlt, hx]
  rw [hmmapAddr, hsbrkAddr, hmmap, hsbrk]
  constructor
  · rintro h
    obtain rfl : mmapOffset = value := by simpa using h
    exact hsum
  · rintro h
    obtain rfl : sbrkOffset = value := by simpa using h
    exact hsum

end Loading

end CkptRestart
