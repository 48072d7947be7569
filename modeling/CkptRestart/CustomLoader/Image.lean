import CkptRestart.CustomLoader.Segment

/-!
# Image — what is in memory when the interpreter is loaded

Each segment is established in its own pages and nothing else changes; the base of the segments after
the first is what the last mapping of the first one returned.  `loadsImage_iff` says when this is one
base for all of them.
-/

namespace CkptRestart

open Lib

/-! ## The segments of a file -/

def programHeader (content : List UInt8) (i : Nat) : Elf64Phdr :=
  decodePhdr (slice content ((fileHeader content).ePhoff + phdrSize * i) phdrSize)

/-- The segments among the first `n` program headers. -/
def segmentsUpTo (content : List UInt8) (n : Nat) : List Elf64Phdr :=
  ((List.range n).map (programHeader content)).filter fun p => p.pType = ptLoad

/-- The `PT_LOAD` segments of a file. -/
def loadSegments (content : List UInt8) : List Elf64Phdr :=
  segmentsUpTo content (fileHeader content).ePhnum

/-! ## All segments -/

section Run

variable {env : LoaderEnv} {content : List UInt8} {s₀ : AddrSpace}

theorem pageAligned_loadBase (rankId : Int) : PageAligned (loadBase rankId) := by
  apply Nat.dvd_of_mod_eq_zero
  simp only [loadBase, toUnsigned, wrap, wordSize, pageSize]
  omega

/-- A change behind the end of a segment leaves it as it is. -/
theorem SegmentAt.frame {s s' : AddrSpace} {b : Nat} {p : Elf64Phdr}
    (hsegment : SegmentAt s content b p) (h : LoadableSegment content p) {lo : Nat}
    (hbehind : b + roundUp (p.pVaddr + p.pMemsz) ≤ lo)
    (houtside : ∀ x < lo, s'.protAt x = s.protAt x ∧ s'.bytes x = s.bytes x) :
    SegmentAt s' content b p := by
  have hms := le_pagesUp (p.pVaddr + p.pMemsz)
  have hsize := h.size
  rw [roundUp_window h.window] at hbehind
  refine ⟨fun j hj => ?_, fun j hlo hhi => ?_, fun hne x hlo hhi => ?_⟩
  · rw [(houtside _ (by omega)).2]
    exact hsegment.file j hj
  · rw [(houtside _ (by omega)).2]
    exact hsegment.bss j hlo hhi
  · have hx := hhi
    rw [roundUp_window h.window] at hx
    rw [(houtside _ (by omega)).1]
    exact hsegment.prot hne x hlo hhi

/-- What is in memory after the first segment was mapped at `b` and the others behind it. -/
structure Established (s₀ : AddrSpace) (content : List UInt8) (b : Nat) (first : Elf64Phdr)
    (rest : List Elf64Phdr) (s : AddrSpace) : Prop where
  firstAt : SegmentAt s content b first
  restAt : ∀ q ∈ rest, 0 < q.pFilesz + pageOffset q.pVaddr →
    SegmentAt s content (lastMapping b first) q
  changed : ∀ x, s.protAt x ≠ s₀.protAt x →
    x < b + pagesUp (first.pVaddr + first.pMemsz) ∨
      ∃ q ∈ rest, 0 < q.pFilesz + pageOffset q.pVaddr ∧
        lastMapping b first + roundDown q.pVaddr ≤ x ∧
          x < lastMapping b first + pagesUp (q.pVaddr + q.pMemsz)

/-- After the segments `segs` have been looked at. -/
structure LoadInv (env : LoaderEnv) (content : List UInt8) (s₀ : AddrSpace)
    (segs : List Elf64Phdr) (st : HeaderLoop) : Prop where
  base : st.loader.firstTime = false →
    Base st.loader.baseAddress ∧ loadBase env.rankId ≤ st.loader.baseAddress
  granted : (∀ n s c, (env.kernels n).refusesMmap s c = none) → NoFailure st.loader.calls
  changed : ∀ x, st.loader.space.protAt x ≠ s₀.protAt x → loadBase env.rankId ≤ x
  start : segs = [] → st.firstTime = true ∧ st.baseAddr = 0 ∧ st.loader.firstTime = true ∧
    st.loader.space = s₀
  skipped : ∀ first rest, segs = first :: rest → first.pFilesz + pageOffset first.pVaddr = 0 →
    st.firstTime = false ∧ st.baseAddr = 0
  loaded : NoFailure st.loader.calls → ∀ first rest, segs = first :: rest →
    0 < first.pFilesz + pageOffset first.pVaddr →
    st.firstTime = false ∧ st.baseAddr = lastMapping (loadBase env.rankId) first ∧
      st.loader.firstTime = false ∧
      st.loader.baseAddress = lastMapping (loadBase env.rankId) first ∧
      Established s₀ content (loadBase env.rankId) first rest st.loader.space

theorem LoadInv.setBase {segs : List Elf64Phdr} {st : HeaderLoop}
    (hinv : LoadInv env content s₀ segs st) (hwindow : loadBase env.rankId + ldSoWindow ≤ 2 ^ 63) :
    Base (st.loader.setBase env.rankId).baseAddress ∧
      loadBase env.rankId ≤ (st.loader.setBase env.rankId).baseAddress := by
  unfold Loader.setBase
  cases hfirst : st.loader.firstTime with
  | true => exact ⟨⟨pageAligned_loadBase _, le_trans (Nat.le_add_right _ _) hwindow⟩, le_rfl⟩
  | false => exact hinv.base hfirst

theorem base_lastMapping {b : Nat} (hb : PageAligned b) (hwindow : b + ldSoWindow ≤ 2 ^ 63)
    {p : Elf64Phdr} (h : LoadableSegment content p) :
    Base (lastMapping b p) ∧ b ≤ lastMapping b p := by
  have hfs := h.fileEnd_le
  have hpages := pagesUp_le hfs (by decide : PageAligned ldSoWindow)
  have hdown : roundDown p.pVaddr ≤ p.pVaddr := Nat.div_mul_le_self _ _
  have hv := h.vaddr_le
  rw [lastMapping, roundUp_window hfs]
  split
  · exact ⟨⟨Nat.dvd_add hb (pageAligned_pagesUp _), by omega⟩, Nat.le_add_right _ _⟩
  · exact ⟨⟨Nat.dvd_add hb (pageAligned_roundDown _), by omega⟩, Nat.le_add_right _ _⟩

theorem noFailure_append {calls new : List MapEvent} :
    NoFailure (calls ++ new) ↔ NoFailure calls ∧ NoFailure new := by
  unfold NoFailure
  exact List.forall_mem_append

/-- One more segment behind those that are there. -/
theorem Established.append {b : Nat} {first : Elf64Phdr} {rest : List Elf64Phdr}
    {s s' : AddrSpace} (hest : Established s₀ content b first rest s)
    (hsegs : ∀ q ∈ first :: rest, LoadableSegment content q) (hb : b ≤ lastMapping b first)
    {p : Elf64Phdr}
    (hbehind : ∀ q ∈ first :: rest, roundUp (q.pVaddr + q.pMemsz) ≤ roundDown p.pVaddr)
    (houtside : ∀ x, ¬ (lastMapping b first + roundDown p.pVaddr ≤ x ∧
        x < lastMapping b first + pagesUp (p.pVaddr + p.pMemsz)) →
      s'.protAt x = s.protAt x ∧ s'.bytes x = s.bytes x)
    (hmapped : 0 < p.pFilesz + pageOffset p.pVaddr →
      SegmentAt s' content (lastMapping b first) p)
    (hskipped : p.pFilesz + pageOffset p.pVaddr = 0 → ∀ x, s'.protAt x = s.protAt x) :
    Established s₀ content b first (rest ++ [p]) s' := by
  -- the segments are in ascending order, so the earlier ones are below the new one
  have hbelow : ∀ x < lastMapping b first + roundDown p.pVaddr,
      s'.protAt x = s.protAt x ∧ s'.bytes x = s.bytes x :=
    fun x hx => houtside x (by omega)
  refine ⟨?_, ?_, ?_⟩
  · apply hest.firstAt.frame (hsegs first List.mem_cons_self) ?_ hbelow
    exact Nat.add_le_add hb (hbehind first List.mem_cons_self)
  · intro q hq hpos
    rcases List.mem_append.1 hq with hq | hq
    · apply (hest.restAt q hq hpos).frame (hsegs q (List.mem_cons_of_mem _ hq)) ?_ hbelow
      exact Nat.add_le_add_left (hbehind q (List.mem_cons_of_mem _ hq)) _
    · obtain rfl := List.mem_singleton.1 hq
      exact hmapped hpos
  · intro x hx
    have hold : s.protAt x ≠ s₀.protAt x → x < b + pagesUp (first.pVaddr + first.pMemsz) ∨
        ∃ q ∈ rest ++ [p], 0 < q.pFilesz + pageOffset q.pVaddr ∧
          lastMapping b first + roundDown q.pVaddr ≤ x ∧
            x < lastMapping b first + pagesUp (q.pVaddr + q.pMemsz) := by
      intro hne
      apply (hest.changed x hne).imp_right
      rintro ⟨q, hq, hrest⟩
      exact ⟨q, List.mem_append_left _ hq, hrest⟩
    by_cases hpos : 0 < p.pFilesz + pageOffset p.pVaddr
    · by_cases hin : lastMapping b first + roundDown p.pVaddr ≤ x ∧
          x < lastMapping b first + pagesUp (p.pVaddr + p.pMemsz)
      · exact .inr ⟨p, by simp, hpos, hin⟩
      · apply hold
        rwa [← (houtside x hin).1]
    · apply hold
      rwa [← hskipped (Nat.eq_zero_of_not_pos hpos) x]

theorem setBase_first (rankId : Int) {ld : Loader} (hfirst : ld.firstTime = true) :
    (ld.setBase rankId).baseAddress = loadBase rankId := by
  simp [Loader.setBase, hfirst]

theorem setBase_later (rankId : Int) {ld : Loader} (hlater : ld.firstTime = false) :
    (ld.setBase rankId).baseAddress = ld.baseAddress := by
  simp [Loader.setBase, hlater]

section Segment

variable {segs : List Elf64Phdr} {p : Elf64Phdr} {st : HeaderLoop} {rc : Nat} {ld : Loader}
  {new : List MapEvent}

/-- The first segment goes to the base of the rank. -/
theorem LoadInv.loaded_first (hinv : LoadInv env content s₀ [] st)
    (hres : SegmentResult env content p (st.loader.setBase env.rankId).baseAddress st.loader rc ld
      new)
    (hnew : NoFailure new) (hpos : 0 < p.pFilesz + pageOffset p.pVaddr) :
    rc = lastMapping (loadBase env.rankId) p ∧ ld.firstTime = false ∧
      ld.baseAddress = lastMapping (loadBase env.rankId) p ∧
      Established s₀ content (loadBase env.rankId) p [] ld.space := by
  rcases hinv.start rfl with ⟨_, _, hloader, hspace⟩
  rcases hres.mapped hnew hpos with ⟨hlater, hbase, hrc, hsegment⟩
  rw [setBase_first _ hloader] at hbase hsegment hres
  rw [hloader, nextBase, if_pos rfl] at hbase
  refine ⟨hrc.trans hbase, hlater, hbase, hsegment, by simp, fun x hx => .inl ?_⟩
  by_contra hge
  apply hx
  rw [← hspace]
  exact (hres.outside x (by omega)).1

/-- A later one goes to where the base is since then. -/
theorem LoadInv.loaded_next (hwindow : loadBase env.rankId + ldSoWindow ≤ 2 ^ 63)
    {first : Elf64Phdr} {rest : List Elf64Phdr}
    (hinv : LoadInv env content s₀ (first :: rest) st)
    (hsegs : ∀ q ∈ first :: rest, LoadableSegment content q)
    (hbehind : ∀ q ∈ first :: rest, roundUp (q.pVaddr + q.pMemsz) ≤ roundDown p.pVaddr)
    (hres : SegmentResult env content p (st.loader.setBase env.rankId).baseAddress st.loader rc ld
      new)
    (hold : NoFailure st.loader.calls) (hnew : NoFailure new)
    (hpos : 0 < first.pFilesz + pageOffset first.pVaddr) :
    ld.firstTime = false ∧ ld.baseAddress = lastMapping (loadBase env.rankId) first ∧
      Established s₀ content (loadBase env.rankId) first (rest ++ [p]) ld.space := by
  rcases hinv.loaded hold first rest rfl hpos with ⟨_, _, hloader, haddr, hest⟩
  rw [setBase_later _ hloader, haddr] at hres
  have hle := (base_lastMapping (pageAligned_loadBase env.rankId) hwindow
    (hsegs first List.mem_cons_self)).2
  have hest' := hest.append hsegs hle hbehind hres.outside
    (fun h => (hres.mapped hnew h).2.2.2) fun h => (hres.skipped h).2.1
  rcases hres.base with ⟨hsame, hbase⟩ | ⟨hfalse, hbase⟩
  · exact ⟨hsame.trans hloader, hbase, hest'⟩
  · rw [hloader] at hbase
    exact ⟨hfalse, hbase, hest'⟩

/-- The base stays in the window. -/
theorem LoadInv.base_next (hwindow : loadBase env.rankId + ldSoWindow ≤ 2 ^ 63)
    (hinv : LoadInv env content s₀ segs st) (h : LoadableSegment content p)
    (hres : SegmentResult env content p (st.loader.setBase env.rankId).baseAddress st.loader rc ld
      new) :
    Base ld.baseAddress ∧ loadBase env.rankId ≤ ld.baseAddress := by
  rcases hres.base with ⟨_, hbase⟩ | ⟨_, hbase⟩
  · rw [hbase]
    exact hinv.setBase hwindow
  · rw [hbase, nextBase]
    cases hfirst : st.loader.firstTime with
    | true =>
        rw [if_pos rfl, setBase_first _ hfirst]
        exact base_lastMapping (pageAligned_loadBase _) hwindow h
    | false => exact hinv.setBase hwindow

end Segment

theorem LoadInv.loadSegment (hlink : checkLibrary env.link libcName = none)
    (hwindow : loadBase env.rankId + ldSoWindow ≤ 2 ^ 63) {segs : List Elf64Phdr}
    {p : Elf64Phdr} {st : HeaderLoop} (hinv : LoadInv env content s₀ segs st)
    (hsegs : ∀ q ∈ segs, LoadableSegment content q) (h : LoadableSegment content p)
    (hoff : p.pOffset < wordSize)
    (hbehind : ∀ q ∈ segs, roundUp (q.pVaddr + q.pMemsz) ≤ roundDown p.pVaddr) :
    ∃ st', CkptRestart.loadSegment env content p st = .ok st' ∧ st'.fd = st.fd ∧
      LoadInv env content s₀ (segs ++ [p]) st' := by
  rcases hinv.setBase hwindow with ⟨hb, hble⟩
  rcases mapElfInterpreterLoadSegment_result hlink h hoff hb rfl with
    ⟨rc, ld, new, hrun, hres⟩
  refine ⟨{ st with
    firstTime := false
    baseAddr := if st.firstTime then rc else st.baseAddr
    loader := ld }, by rw [CkptRestart.loadSegment, hrun]; rfl, rfl, ?_⟩
  -- the first three fields hold whatever the kernel answers
  constructor
  · exact fun _ => hinv.base_next hwindow h hres
  · intro hplain
    show NoFailure ld.calls
    rw [hres.calls]
    exact noFailure_append.2 ⟨hinv.granted hplain, hres.granted hplain⟩
  · intro x hx
    by_contra hlt
    apply hlt
    apply hinv.changed x
    rw [← (hres.outside x (by omega)).1]
    exact hx
  · intro hnil
    simp at hnil
  · intro first rest heq hzero
    cases segs with
    | nil =>
        -- a first segment that maps nothing: its zero is what the file gets
        obtain ⟨rfl, rfl⟩ : p = first ∧ [] = rest := by simpa using heq
        rcases hinv.start rfl with ⟨hfirst, _, _, _⟩
        refine ⟨rfl, ?_⟩
        simp only [hfirst, if_true]
        exact (hres.skipped hzero).1
    | cons first' rest' =>
        obtain ⟨rfl, rfl⟩ : first' = first ∧ rest' ++ [p] = rest := by simpa using heq
        rcases hinv.skipped first' rest' rfl hzero with ⟨hlater, hbase⟩
        refine ⟨rfl, ?_⟩
        simp [hlater, hbase]
  · intro hnone first rest heq hpos
    change NoFailure ld.calls at hnone
    rw [hres.calls] at hnone
    rcases noFailure_append.1 hnone with ⟨hold, hnew⟩
    cases segs with
    | nil =>
        obtain ⟨rfl, rfl⟩ : p = first ∧ [] = rest := by simpa using heq
        rcases hinv.loaded_first hres hnew hpos with ⟨hrc, hlater, hbase, hest⟩
        refine ⟨rfl, ?_, hlater, hbase, hest⟩
        simp only [(hinv.start rfl).1, if_true]
        exact hrc
    | cons first' rest' =>
        obtain ⟨rfl, rfl⟩ : first' = first ∧ rest' ++ [p] = rest := by simpa using heq
        rcases hinv.loaded hold first' rest' rfl hpos with ⟨hlater, hbase, _, _, _⟩
        -- what is returned for a later segment is not looked at
        rcases hinv.loaded_next hwindow hsegs hbehind hres hold hnew hpos with ⟨hloader, haddr, hest⟩
        refine ⟨rfl, ?_, hloader, haddr, hest⟩
        simp [hlater, hbase]

/-! ## The file -/

/-- An ELF64 file that passes the loader's assertions, with the headers at an offset that fits an
`int`, and with segments in ascending order that occupy pages of their own in the window of a rank. -/
structure Loadable (rankId : Int) (content : List UInt8) : Prop where
  window : loadBase rankId + ldSoWindow ≤ 2 ^ 63
  header : ehdrSize ≤ content.length
  magic : slice (slice content 0 eiNident) 0 elfMag.length = elfMag
  class64 : (slice content 0 eiNident).getD eiClass 0 = elfClass64
  phoff_lt : (fileHeader content).ePhoff < 2 ^ 31
  headers : (fileHeader content).ePhoff + phdrSize * (fileHeader content).ePhnum ≤ content.length
  segment : ∀ p ∈ loadSegments content, LoadableSegment content p
  ordered : (loadSegments content).Pairwise fun p q =>
    roundUp (p.pVaddr + p.pMemsz) ≤ roundDown q.pVaddr

theorem segmentsUpTo_succ (content : List UInt8) (i : Nat) :
    segmentsUpTo content (i + 1) = segmentsUpTo content i ++
      if (programHeader content i).pType = ptLoad then [programHeader content i] else [] := by
  simp only [segmentsUpTo, List.range_succ, List.map_append, List.filter_append, List.map_cons,
    List.map_nil, List.filter_cons, List.filter_nil]
  split <;> simp_all

theorem segmentsUpTo_prefix {content : List UInt8} {i : Nat}
    (hi : i ≤ (fileHeader content).ePhnum) : segmentsUpTo content i <+: loadSegments content := by
  apply List.IsPrefix.filter
  apply List.IsPrefix.map
  obtain ⟨k, hk⟩ := Nat.exists_eq_add_of_le hi
  rw [hk, List.range_add]
  exact List.prefix_append _ _

/-- The `i`-th round of the loop is about the `i`-th header. -/
theorem Loadable.loadHeader_eq {rankId : Int} (hl : Loadable rankId content) {i : Nat}
    (hi : i < (fileHeader content).ePhnum) {st : HeaderLoop}
    (hfd : st.fd = ⟨content, (fileHeader content).ePhoff + phdrSize * i⟩) :
    CkptRestart.loadHeader env st i =
      if (programHeader content i).pType = ptLoad then
        CkptRestart.loadSegment env content (programHeader content i) { st with
          fd := ⟨content, (fileHeader content).ePhoff + phdrSize * (i + 1)⟩
          loader := { st.loader with header := i } }
      else pure { st with fd := ⟨content, (fileHeader content).ePhoff + phdrSize * (i + 1)⟩ } := by
  have hin : (fileHeader content).ePhoff + phdrSize * i + phdrSize ≤ content.length := by
    have hle := Nat.mul_le_mul_left phdrSize (Nat.succ_le_of_lt hi)
    have hheaders := hl.headers
    rw [Nat.mul_succ] at hle
    omega
  have hread := @FileDesc.read_of_le ⟨content, (fileHeader content).ePhoff + phdrSize * i⟩ _ hin
  have hdecode : decodePhdr (slice content ((fileHeader content).ePhoff + phdrSize * i) phdrSize) =
      programHeader content i := rfl
  have hnext : (fileHeader content).ePhoff + phdrSize * i + phdrSize =
      (fileHeader content).ePhoff + phdrSize * (i + 1) := by
    rw [Nat.mul_succ, Nat.add_assoc]
  simp only [CkptRestart.loadHeader, hfd, hread, length_slice hin, ne_eq, not_true_eq_false,
    if_false, hdecode, hnext]

/-- The segments that have been looked at with that of the `i`-th header, if it has one. -/
theorem segmentsUpTo_append_prefix {i : Nat} (hi : i < (fileHeader content).ePhnum)
    (hload : (programHeader content i).pType = ptLoad) :
    segmentsUpTo content i ++ [programHeader content i] <+: loadSegments content := by
  have hprefix := segmentsUpTo_prefix (Nat.succ_le_of_lt hi)
  rwa [segmentsUpTo_succ, if_pos hload] at hprefix

theorem LoadInv.loadHeader (hlink : checkLibrary env.link libcName = none)
    (hl : Loadable env.rankId content) {i : Nat} (hi : i < (fileHeader content).ePhnum)
    {st : HeaderLoop} (hfd : st.fd = ⟨content, (fileHeader content).ePhoff + phdrSize * i⟩)
    (hinv : LoadInv env content s₀ (segmentsUpTo content i) st) :
    ∃ st', CkptRestart.loadHeader env st i = .ok st' ∧
      st'.fd = ⟨content, (fileHeader content).ePhoff + phdrSize * (i + 1)⟩ ∧
      LoadInv env content s₀ (segmentsUpTo content (i + 1)) st' := by
  rw [segmentsUpTo_succ, hl.loadHeader_eq hi hfd]
  by_cases hload : (programHeader content i).pType = ptLoad
  · have hall := segmentsUpTo_append_prefix hi hload
    have hsegment := fun q hq => hl.segment q (hall.subset hq)
    have hordered := List.pairwise_append.1 (hl.ordered.sublist hall.sublist)
    have hinv' : LoadInv env content s₀ (segmentsUpTo content i)
        { st with
          fd := ⟨content, (fileHeader content).ePhoff + phdrSize * (i + 1)⟩
          loader := { st.loader with header := i } } :=
      ⟨hinv.base, hinv.granted, hinv.changed, hinv.start, hinv.skipped, hinv.loaded⟩
    rw [if_pos hload, if_pos hload]
    apply hinv'.loadSegment hlink hl.window
    · exact fun q hq => hsegment q (List.mem_append_left _ hq)
    · exact hsegment _ (List.mem_append_right _ (List.mem_singleton_self _))
    · exact wordAt_lt 8 8 _
    · exact fun q hq => hordered.2.2 q hq _ (List.mem_singleton_self _)
  · rw [if_neg hload, if_neg hload, List.append_nil]
    exact ⟨_, rfl, rfl, hinv.base, hinv.granted, hinv.changed, hinv.start, hinv.skipped, hinv.loaded⟩

/-- The loader gets to the end of the headers. -/
theorem loadElfInterpreter_inv (hlink : checkLibrary env.link libcName = none)
    (hl : Loadable env.rankId content) (space : AddrSpace) (table : MmapTable)
    (info : DynObjInfo) :
    ∃ st entry info', loadElfInterpreter env content info (.start space table) =
        .ok (st.baseAddr, entry, info', st.loader) ∧
      LoadInv env content space (loadSegments content) st := by
  have hheader := hl.header
  have hstart : (⟨content, 0⟩ : FileDesc).pos + ehdrSize ≤ content.length := by simpa using hheader
  have hident : (⟨content, 0⟩ : FileDesc).pos + eiNident ≤ content.length :=
    le_trans (by decide : 0 + eiNident ≤ 0 + ehdrSize) hstart
  have hread := FileDesc.read_of_le hstart
  have hreadIdent := FileDesc.read_of_le hident
  have hmagic : ¬ (slice (slice content 0 eiNident) 0 elfMag.length ≠ elfMag ∨
      (slice content 0 eiNident).getD eiClass 0 ≠ elfClass64) :=
    not_or.2 ⟨not_not.2 hl.magic, not_not.2 hl.class64⟩
  have hdecode : decodeEhdr (slice content 0 ehdrSize) = fileHeader content := rfl
  have hoff : toUnsigned (toInt32 (fileHeader content).ePhoff) = (fileHeader content).ePhoff := by
    have hlt := hl.phoff_lt
    rw [toInt32, Int.bmod_eq_of_le (by omega) (by omega), toUnsigned_natCast]
    exact lt_trans hlt (by decide)
  have hseek : (fileHeader content).ePhoff < 2 ^ 63 := lt_trans hl.phoff_lt (by decide)
  let st₀ : HeaderLoop :=
    ⟨⟨content, (fileHeader content).ePhoff⟩, true, 0, .start space table⟩
  have hinit : LoadInv env content space (segmentsUpTo content 0) st₀ := by
    refine ⟨fun hfalse => ?_, fun _ e he => ?_, fun x hx => absurd rfl hx,
      fun _ => ⟨rfl, rfl, rfl, rfl⟩, fun first rest heq => ?_, fun _ first rest heq => ?_⟩
    · exact absurd hfalse.symm Bool.false_ne_true
    · exact absurd he List.not_mem_nil
    · simp [segmentsUpTo] at heq
    · simp [segmentsUpTo] at heq
  rcases @Exec.steps_range _ (CkptRestart.loadHeader env)
    (fun i st => st.fd = ⟨content, (fileHeader content).ePhoff + phdrSize * i⟩ ∧
      LoadInv env content space (segmentsUpTo content i) st) (fileHeader content).ePhnum
    (fun i hi st hst => hst.2.loadHeader hlink hl hi hst.1) st₀ ⟨rfl, hinit⟩ with
    ⟨st, hrun, _, hinv⟩
  refine ⟨st, (fileHeader content).eEntry, { info with
    phnum := (fileHeader content).ePhnum
    phdr := wrap (st.baseAddr + (fileHeader content).ePhoff) }, ?_, hinv⟩
  simp only [loadElfInterpreter, hreadIdent, length_slice hident, ne_eq, not_true_eq_false,
    if_false, if_neg hmagic, FileDesc.lseek_of_lt _ (by decide : 0 < 2 ^ 63), hread,
    length_slice hstart, hdecode, hoff, FileDesc.lseek_of_lt _ hseek]
  rw [hrun]
  rfl

end Run

/-! ## One base -/

/-- Whatever the memory was and whatever the kernel does: if no mapping of a range that is not empty
fails, every segment is where the base that is returned says. -/
def LoadsImage (rankId : Int) (link : Option (List UInt8)) (content : List UInt8) : Prop :=
  ∀ env : LoaderEnv, env.rankId = rankId → env.link = link → ∀ space table info,
    ∃ baseAddr entry info' ld, loadElfInterpreter env content info (.start space table) =
        .ok (baseAddr, entry, info', ld) ∧
      (NoFailure ld.calls → ∀ p ∈ loadSegments content, SegmentAt ld.space content baseAddr p)

/-- No segment has anything in memory, or the first one starts in the first page, ends in the pages of
its file part, and every one has a file part to be mapped. -/
def OneBase (segs : List Elf64Phdr) : Prop :=
  (∀ p ∈ segs, p.pMemsz = 0) ∨
    ∃ first rest, segs = first :: rest ∧ 0 < first.pFilesz + pageOffset first.pVaddr ∧
      (first.pMemsz = 0 ∨ first.pVaddr < pageSize ∧
        roundUp (first.pVaddr + first.pMemsz) ≤ roundUp (first.pVaddr + first.pFilesz)) ∧
      ∀ p ∈ rest, 0 < p.pMemsz → 0 < p.pFilesz + pageOffset p.pVaddr

theorem segmentAt_of_empty {content : List UInt8} {p : Elf64Phdr}
    (h : LoadableSegment content p) (hempty : p.pMemsz = 0) (s : AddrSpace) (b : Nat) :
    SegmentAt s content b p := by
  have hsize := h.size
  exact ⟨fun j hj => by omega, fun j hlo hhi => by omega, fun hne => by omega⟩

/-- For such a first segment the base stays where it was. -/
theorem lastMapping_eq {b : Nat} {p : Elf64Phdr} (hv : p.pVaddr < pageSize)
    (hle : roundUp (p.pVaddr + p.pMemsz) ≤ roundUp (p.pVaddr + p.pFilesz)) :
    lastMapping b p = b := by
  rw [lastMapping, if_neg (Nat.not_lt.2 hle), roundDown, Nat.div_eq_of_lt hv]
  simp

/-- For any other one that is mapped the base moves up. -/
theorem lt_lastMapping {b : Nat} {content : List UInt8} {p : Elf64Phdr}
    (h : LoadableSegment content p) (hpos : 0 < p.pFilesz + pageOffset p.pVaddr)
    (hnot : ¬ (p.pVaddr < pageSize ∧
      roundUp (p.pVaddr + p.pMemsz) ≤ roundUp (p.pVaddr + p.pFilesz))) :
    b < lastMapping b p := by
  rw [lastMapping]
  split
  · have hdown := roundDown_add_pageOffset p.pVaddr
    have hup := le_pagesUp (p.pVaddr + p.pFilesz)
    rw [roundUp_window h.fileEnd_le]
    omega
  · have hv : pageSize ≤ p.pVaddr := by
      by_contra hlt
      exact hnot ⟨Nat.not_le.1 hlt, Nat.not_lt.1 ‹_›⟩
    have hdiv : 0 < p.pVaddr / pageSize := Nat.div_pos hv (by decide)
    have hdown : 0 < roundDown p.pVaddr := Nat.mul_pos hdiv (by decide)
    omega

theorem loadBase_ge (rankId : Int) : 3 * 2 ^ 30 ≤ loadBase rankId := by
  simp only [loadBase, toUnsigned, wrap, wordSize]
  omega

theorem protAt_emptySpace (x : Nat) : emptySpace.protAt x = none := rfl

/-- Segments of the same list have pages of their own. -/
theorem Loadable.apart {rankId : Int} {content : List UInt8} (hl : Loadable rankId content)
    {p q : Elf64Phdr} (hp : p ∈ loadSegments content) (hq : q ∈ loadSegments content)
    (hne : p ≠ q) :
    roundUp (p.pVaddr + p.pMemsz) ≤ roundDown q.pVaddr ∨
      roundUp (q.pVaddr + q.pMemsz) ≤ roundDown p.pVaddr := by
  have : Std.Symm fun p q : Elf64Phdr => roundUp (p.pVaddr + p.pMemsz) ≤ roundDown q.pVaddr ∨
      roundUp (q.pVaddr + q.pMemsz) ≤ roundDown p.pVaddr := ⟨fun _ _ => Or.symm⟩
  have heither : (loadSegments content).Pairwise fun p q =>
      roundUp (p.pVaddr + p.pMemsz) ≤ roundDown q.pVaddr ∨
        roundUp (q.pVaddr + q.pMemsz) ≤ roundDown p.pVaddr := hl.ordered.imp Or.inl
  exact heither.forall hp hq hne

/-- Where the first segment is one that keeps the base, the image is loaded. -/
theorem OneBase.segmentAt {env : LoaderEnv} {content : List UInt8} {s₀ : AddrSpace}
    {st : HeaderLoop} (hone : OneBase (loadSegments content)) (hl : Loadable env.rankId content)
    (hinv : LoadInv env content s₀ (loadSegments content) st)
    (hnone : NoFailure st.loader.calls) :
    ∀ p ∈ loadSegments content, SegmentAt st.loader.space content st.baseAddr p := by
  rcases hone with hempty | ⟨first, rest, heq, hpos, hfirst, hrest⟩
  · exact fun p hp => segmentAt_of_empty (hl.segment p hp) (hempty p hp) _ _
  · rcases hinv.loaded hnone first rest heq hpos with ⟨_, hbase, _, _, hest⟩
    rw [hbase]
    intro p hp
    have hsegment := hl.segment p hp
    rw [heq] at hp
    rcases List.mem_cons.1 hp with rfl | hp
    · rcases hfirst with hempty | ⟨hv, hle⟩
      · exact segmentAt_of_empty hsegment hempty _ _
      · rw [lastMapping_eq hv hle]
        exact hest.firstAt
    · by_cases hempty : p.pMemsz = 0
      · exact segmentAt_of_empty hsegment hempty _ _
      · exact hest.restAt p hp (hrest p hp (Nat.pos_of_ne_zero hempty))

/-- In a memory that was empty, the pages of a segment are only there if a mapping has made them. -/
theorem SegmentAt.changed {s : AddrSpace} {content : List UInt8} {b : Nat} {p : Elf64Phdr}
    (hsegment : SegmentAt s content b p) (hne : 0 < p.pMemsz) {x : Nat}
    (hlo : roundDown p.pVaddr ≤ x) (hhi : x < roundUp (p.pVaddr + p.pMemsz)) :
    s.protAt (b + x) ≠ emptySpace.protAt (b + x) := by
  rw [hsegment.prot hne x hlo hhi, protAt_emptySpace]
  exact Option.some_ne_none _

section Converse

variable {env : LoaderEnv} {content : List UInt8} {st : HeaderLoop}

/-- A first segment of which nothing is mapped leaves no base. -/
theorem first_mapped (hl : Loadable env.rankId content)
    (hinv : LoadInv env content emptySpace (loadSegments content) st)
    (hall : ∀ p ∈ loadSegments content, SegmentAt st.loader.space content st.baseAddr p)
    {p : Elf64Phdr} (hp : p ∈ loadSegments content) (hne : 0 < p.pMemsz)
    {first : Elf64Phdr} {rest : List Elf64Phdr} (heq : loadSegments content = first :: rest) :
    0 < first.pFilesz + pageOffset first.pVaddr := by
  by_contra hzero
  have hbase := (hinv.skipped first rest heq (Nat.eq_zero_of_not_pos hzero)).2
  have hwindow := (hl.segment p hp).window
  have hdown : roundDown p.pVaddr ≤ p.pVaddr := Nat.div_mul_le_self _ _
  have hup := le_pagesUp (p.pVaddr + p.pMemsz)
  have hchanged := (hall p hp).changed hne le_rfl (by rw [roundUp_window hwindow]; omega)
  have hge := hinv.changed _ hchanged
  have hbaseGe := loadBase_ge env.rankId
  unfold ldSoWindow at hwindow
  omega

/-- A first segment after which the base moves is not where the base says. -/
theorem first_keeps_base (hl : Loadable env.rankId content) {first : Elf64Phdr}
    {rest : List Elf64Phdr} (heq : loadSegments content = first :: rest)
    (hpos : 0 < first.pFilesz + pageOffset first.pVaddr) {s : AddrSpace}
    (hest : Established emptySpace content (loadBase env.rankId) first rest s)
    (hfirst : SegmentAt s content (lastMapping (loadBase env.rankId) first) first) :
    first.pMemsz = 0 ∨ first.pVaddr < pageSize ∧
      roundUp (first.pVaddr + first.pMemsz) ≤ roundUp (first.pVaddr + first.pFilesz) := by
  by_contra hnot
  rcases not_or.1 hnot with ⟨hne, hmoves⟩
  have hmem : first ∈ loadSegments content := by simp [heq]
  have hsegment := hl.segment first hmem
  have hlt := @lt_lastMapping (loadBase env.rankId) _ _ hsegment hpos hmoves
  have hdown : roundDown first.pVaddr ≤ first.pVaddr := Nat.div_mul_le_self _ _
  have hup := le_pagesUp (first.pVaddr + first.pMemsz)
  have hround := roundUp_window hsegment.window
  -- the last byte of its last page
  have hlast := hfirst.changed (Nat.pos_of_ne_zero hne)
    (x := roundUp (first.pVaddr + first.pMemsz) - 1) (by omega) (by omega)
  rcases hest.changed _ hlast with hin | ⟨q, hq, _, hlo, _⟩
  · omega
  · have hordered := hl.ordered
    rw [heq] at hordered
    have hbehind := List.rel_of_pairwise_cons hordered hq
    omega

/-- A later segment of which nothing is mapped has nothing in memory. -/
theorem rest_mapped (hl : Loadable env.rankId content) {first : Elf64Phdr}
    {rest : List Elf64Phdr} (heq : loadSegments content = first :: rest) {s : AddrSpace}
    (hest : Established emptySpace content (loadBase env.rankId) first rest s) {p : Elf64Phdr}
    (hp : p ∈ rest) (hne : 0 < p.pMemsz)
    (hsegment : SegmentAt s content (lastMapping (loadBase env.rankId) first) p) :
    0 < p.pFilesz + pageOffset p.pVaddr := by
  by_contra hzero
  have hmem : ∀ q ∈ rest, q ∈ loadSegments content := by
    intro q hq
    rw [heq]
    exact List.mem_cons_of_mem _ hq
  have hfirst := hl.segment first (by simp [heq])
  have hwindow := (hl.segment p (hmem p hp)).window
  have hdown : roundDown p.pVaddr ≤ p.pVaddr := Nat.div_mul_le_self _ _
  have hup := le_pagesUp (p.pVaddr + p.pMemsz)
  have hround := roundUp_window hwindow
  have hstart := hsegment.changed hne le_rfl (by omega)
  rcases hest.changed _ hstart with hin | ⟨q, hq, hqpos, hlo, hhi⟩
  · have hordered := hl.ordered
    rw [heq] at hordered
    have hbehind := List.rel_of_pairwise_cons hordered hp
    have hbase := (base_lastMapping (pageAligned_loadBase env.rankId) hl.window hfirst).2
    rw [roundUp_window hfirst.window] at hbehind
    omega
  · have hpq : p ≠ q := by
      rintro rfl
      exact hzero hqpos
    have hqround := roundUp_window (hl.segment q (hmem q hq)).window
    rcases hl.apart (hmem p hp) (hmem q hq) hpq with hbefore | hbehind
    · omega
    · omega

end Converse

/-- A kernel that refuses nothing, and a process that loads into an empty memory. -/
def plainEnv (rankId : Int) (link : Option (List UInt8)) : LoaderEnv where
  kernels := fun _ => .plain
  files := fun _ => none
  lhInfo := ⟨0, 0, 0, 0, 0⟩
  rankId := rankId
  ldSoFd := 3
  link := link
  junk := zeroShdr
  behind := []

/-- What a loaded image says about the headers. -/
theorem LoadsImage.oneBase {rankId : Int} {content : List UInt8} {link : Option (List UInt8)}
    (hloads : LoadsImage rankId link content) (hl : Loadable rankId content)
    (hlink : checkLibrary link libcName = none) : OneBase (loadSegments content) := by
  by_cases hempty : ∀ p ∈ loadSegments content, p.pMemsz = 0
  · exact .inl hempty
  right
  push Not at hempty
  rcases hempty with ⟨p, hp, hne⟩
  obtain ⟨first, rest, heq⟩ := List.exists_cons_of_ne_nil (List.ne_nil_of_mem hp)
  let env := plainEnv rankId link
  rcases hloads env rfl rfl emptySpace .initial .zero with ⟨baseAddr, entry, info, ld, hrun, hall⟩
  rcases @loadElfInterpreter_inv env content hlink hl emptySpace .initial .zero with
    ⟨st, entry', info', hrun', hinv⟩
  obtain ⟨rfl, -, -, rfl⟩ : st.baseAddr = baseAddr ∧ entry' = entry ∧ info' = info ∧
      st.loader = ld := by
    simpa using hrun'.symm.trans hrun
  have hnone := hinv.granted fun _ _ _ => rfl
  have hsegments := hall hnone
  have hpos := @first_mapped env _ _ hl hinv hsegments p hp (Nat.pos_of_ne_zero hne) first rest heq
  rcases hinv.loaded hnone first rest heq hpos with ⟨_, hbase, _, _, hest⟩
  rw [hbase] at hsegments
  refine ⟨first, rest, heq, hpos, ?_, fun q hq hqne => ?_⟩
  · exact @first_keeps_base env _ hl _ _ heq hpos _ hest (hsegments first (by simp [heq]))
  · exact @rest_mapped env _ hl _ _ heq _ hest _ hq hqne (hsegments q (by simp [heq, hq]))

/-- The image that the headers describe is loaded exactly if there is one base for all segments. -/
theorem loadsImage_iff {rankId : Int} {content : List UInt8} (hl : Loadable rankId content)
    {link : Option (List UInt8)} (hlink : checkLibrary link libcName = none) :
    LoadsImage rankId link content ↔ OneBase (loadSegments content) := by
  constructor
  · exact fun hloads => hloads.oneBase hl hlink
  · rintro hone env rfl rfl space table info
    rcases loadElfInterpreter_inv hlink hl space table info with ⟨st, entry, info', hrun, hinv⟩
    exact ⟨_, _, _, _, hrun, hone.segmentAt hl hinv⟩

/-! ## Two segments -/

/-- The segments of `smallLd`. -/
def smallLdSegments (vaddr : Nat) : List Elf64Phdr :=
  [⟨ptLoad, pfR ||| pfX, 0, vaddr, 467, 467, pageSize⟩,
    ⟨ptLoad, pfR ||| pfW, 0, vaddr + pageSize, 467, 467, pageSize⟩]

theorem loadSegments_smallLd :
    ∀ vaddr ∈ [0, pageSize], loadSegments (smallLd vaddr) = smallLdSegments vaddr := by
  decide +kernel

theorem loadable_smallLd {vaddr : Nat} (hv : vaddr ∈ [0, pageSize]) : Loadable 0 (smallLd vaddr) where
  window := by decide
  header := (by decide +kernel : ∀ v ∈ [0, pageSize], ehdrSize ≤ (smallLd v).length) vaddr hv
  magic := rfl
  class64 := rfl
  phoff_lt := (by decide +kernel :
    ∀ v ∈ [0, pageSize], (fileHeader (smallLd v)).ePhoff < 2 ^ 31) vaddr hv
  headers := (by decide +kernel : ∀ v ∈ [0, pageSize], (fileHeader (smallLd v)).ePhoff +
    phdrSize * (fileHeader (smallLd v)).ePhnum ≤ (smallLd v).length) vaddr hv
  segment := (by decide +kernel : ∀ v ∈ [0, pageSize], ∀ p ∈ loadSegments (smallLd v),
    LoadableSegment (smallLd v) p) vaddr hv
  ordered := (by decide +kernel : ∀ v ∈ [0, pageSize], (loadSegments (smallLd v)).Pairwise
    fun p q => roundUp (p.pVaddr + p.pMemsz) ≤ roundDown q.pVaddr) vaddr hv

/-- If the first segment starts at 0, the image is loaded. -/
theorem loadsImage_smallLd : LoadsImage 0 (some smallLibName) (smallLd 0) := by
  apply (loadsImage_iff (loadable_smallLd (by decide)) (by decide)).2
  rw [loadSegments_smallLd 0 (by decide)]
  exact .inr ⟨_, _, rfl, by decide, .inr (by decide), by decide⟩

/-- If it starts in the next page, it is not. -/
theorem not_loadsImage_smallLd :
    Loadable 0 (smallLd pageSize) ∧ checkLibrary (some smallLibName) libcName = none ∧
      ¬ LoadsImage 0 (some smallLibName) (smallLd pageSize) := by
  have hl : Loadable 0 (smallLd pageSize) := loadable_smallLd (by decide)
  refine ⟨hl, by decide, fun hloads => ?_⟩
  have hone := hloads.oneBase hl (by decide)
  rw [loadSegments_smallLd pageSize (by decide)] at hone
  rcases hone with hempty | ⟨first, rest, heq, _, hfirst, _⟩
  · exact absurd (hempty _ List.mem_cons_self) (by decide)
  · obtain ⟨rfl, -⟩ := List.cons.inj heq
    exact absurd hfirst (by decide)

end CkptRestart
