import CkptRestart.ConfineAddrSpace.RankRuns
import CkptRestart.CustomLoader.Image

/-!
# Recorded — where the mappings of ld.so are

The loader goes through `mmapWrapper`, so the regions of ld.so are in the table like all others.  For
a file that takes no more than half of the room behind the base of the rank, `safeLoadLib_recorded`
says that they lie in this room, and that the loader has changed nothing else.
-/

namespace CkptRestart

open Lib

/-- From `s₀` to `s` mappings have been made in `A`, all of which are in the table, and nothing outside
`A` has changed. -/
structure Recorded (A : Set Nat) (s₀ s : AddrSpace) (table : MmapTable) (regions : List MmapInfo) :
    Prop where
  records : Records table regions
  inside : ∀ t ∈ regions, t.pages ⊆ A
  valid : ∀ t ∈ regions, ValidRange t.addr t.len
  outside : ∀ x, x ∉ A → s.maps.lookup x = s₀.maps.lookup x ∧ s.bytes x = s₀.bytes x
  named : ∀ name ≠ [], ∀ g, (∀ x, g.Has x → x ∉ A) → Named s₀ name g → Named s name g

theorem Recorded.initial (A : Set Nat) (s : AddrSpace) : Recorded A s s .initial [] where
  records := rfl
  inside := fun _ ht => absurd ht List.not_mem_nil
  valid := fun _ ht => absurd ht List.not_mem_nil
  outside := fun _ _ => ⟨rfl, rfl⟩
  named := fun _ _ _ _ h => h

theorem Recorded.mono {A B : Set Nat} {s₀ s : AddrSpace} {table : MmapTable}
    {regions : List MmapInfo} (h : Recorded A s₀ s table regions) (hsub : A ⊆ B) :
    Recorded B s₀ s table regions where
  records := h.records
  inside := fun t ht => (h.inside t ht).trans hsub
  valid := h.valid
  outside := fun x hx => h.outside x fun hA => hx (hsub hA)
  named := fun name hname g hg => h.named name hname g fun x hx hA => hg x hx (hsub hA)

/-- The mapping with the text is still the only one. -/
theorem Named.of_maps {s s' : AddrSpace} {name : List UInt8} {g : Seg Mapping} (h : Named s name g)
    (hmaps : s'.maps = s.maps) : Named s' name g :=
  ⟨hmaps ▸ h.mem, h.here, hmaps ▸ h.only⟩

/-- A mapping none of whose addresses are in a range is apart from it. -/
theorem apart_of_forall_not {g : Seg Mapping} (hg : g.lo < g.hi) {lo hi : Nat} (hlt : lo < hi)
    (hnot : ∀ x, g.Has x → ¬ (lo ≤ x ∧ x < hi)) : g.Apart lo hi := by
  have hfirst := hnot g.lo ⟨le_rfl, hg⟩
  have hmax := hnot lo
  simp only [Seg.Has, Seg.Apart] at *
  omega

/-- A mapping in `A`, with what it holds then. -/
theorem Recorded.mapFixed {A : Set Nat} {s₀ s : AddrSpace} {table : MmapTable}
    {regions : List MmapInfo} (h : Recorded A s₀ s table regions) {c : MmapCall} {w : MmapWorld}
    (hoffset : c.offset &&& mmapOffMask = 0) (hvalid : ValidRange w.ret c.length)
    (hin : Set.Ico w.ret (w.ret + pagesUp c.length) ⊆ A)
    {s' : AddrSpace} (hmaps : s'.maps = (s.mapFixed w.ret c.length c.prot hvalid).maps)
    (hbytes : ∀ x, x ∉ Set.Ico w.ret (w.ret + pagesUp c.length) → s'.bytes x = s.bytes x) :
    Recorded A s₀ s' (mmapWrapper table c w).table (regions ++ [⟨w.ret, c.length⟩]) := by
  have hmap : mappedBy c w = some ⟨w.ret, c.length⟩ := by
    simp [mappedBy, hoffset, hvalid.ne_mapFailed]
  have hrecords := h.records.mmapWrapper c w
  rw [hmap] at hrecords
  refine ⟨hrecords, fun t ht => ?_, fun t ht => ?_, fun x hx => ?_, fun name hname g hg hnamed => ?_⟩
  · rcases List.mem_append.1 ht with ht | ht
    · exact h.inside t ht
    · obtain rfl := List.mem_singleton.1 ht
      exact hin
  · exact valid_append h.valid hvalid t ht
  · have hnot : x ∉ Set.Ico w.ret (w.ret + pagesUp c.length) := fun hx' => hx (hin hx')
    obtain ⟨hlookup, hsame⟩ := h.outside x hx
    rw [hmaps, hbytes x hnot, (s.mapFixed_of_not_mem c.prot hvalid hnot).1]
    exact ⟨hlookup, hsame⟩
  · -- a named mapping outside of `A` is apart from the new one
    have hold := h.named name hname g hg hnamed
    refine (hold.mapFixed hname c.prot hvalid ?_).of_maps hmaps
    exact apart_of_forall_not (s.maps.nonempty g hold.mem) hvalid.lt_end
      fun x hx hx' => hg x hx (hin hx')

/-- A mapping that fails, after it has perhaps removed what was in its place in `A`. -/
theorem Recorded.partly {A : Set Nat} {s₀ s s' : AddrSpace} {table : MmapTable}
    {regions : List MmapInfo} (h : Recorded A s₀ s table regions) {addr len : Nat}
    (hpartly : AddrSpace.Partly (fun _ => none) s addr len s')
    (hin : ValidRange addr len → Set.Ico addr (addr + pagesUp len) ⊆ A) :
    Recorded A s₀ s' table regions where
  records := h.records
  inside := h.inside
  valid := h.valid
  outside := by
    intro x hx
    obtain ⟨hlookup, hbytes⟩ := h.outside x hx
    refine ⟨?_, by rw [hpartly.bytes, hbytes]⟩
    by_cases hvalid : ValidRange addr len
    · rw [hpartly.lookup_of_not_mem fun hx' => hx (hin hvalid hx'), hlookup]
    · rw [hpartly.lookup_of_invalid hvalid, hlookup]
  named := by
    intro name hname g hg hnamed
    have hold := h.named name hname g hg hnamed
    refine hold.partly hpartly fun hvalid => ?_
    exact apart_of_forall_not (s.maps.nonempty g hold.mem) hvalid.lt_end
      fun x hx hx' => hg x hx (hin hvalid hx')

/-- A write in `A`. -/
theorem Recorded.store {A : Set Nat} {s₀ s : AddrSpace} {table : MmapTable}
    {regions : List MmapInfo} (h : Recorded A s₀ s table regions) {addr : Nat} {data : List UInt8}
    (hin : Set.Ico addr (addr + data.length) ⊆ A) :
    Recorded A s₀ (s.store addr data) table regions where
  records := h.records
  inside := h.inside
  valid := h.valid
  outside := by
    intro x hx
    rw [AddrSpace.bytes_store_of_not_mem s fun hx' => hx (hin hx')]
    exact h.outside x hx
  named := fun name hname g hg hnamed => (h.named name hname g hg hnamed).of_maps rfl

/-! ## One call -/

/-- The region that a call of the loader has added. -/
def MapEvent.region (e : MapEvent) : Option MmapInfo :=
  if e.ret = mapFailed then none else some ⟨e.ret, e.call.length⟩

def Loader.regions (ld : Loader) : List MmapInfo := ld.calls.filterMap MapEvent.region

theorem Loader.regions_append {ld ld' : Loader} {e : MapEvent} (h : ld'.calls = ld.calls ++ [e]) :
    ld'.regions = ld.regions ++ e.region.toList := by
  rw [regions, regions, h, List.filterMap_append]
  cases hregion : e.region <;> simp [hregion]

theorem Loader.regions_of_calls {ld ld' : Loader} (h : ld'.calls = ld.calls) :
    ld'.regions = ld.regions := by
  rw [regions, regions, h]

section Loading

variable {env : LoaderEnv} {content : List UInt8} {A : Set Nat} {s₀ : AddrSpace}

/-- A call that is not for libc fails, or maps where it was asked to. -/
theorem Recorded.mmapWrapper (hlink : checkLibrary env.link libcName = none) {c : MmapCall}
    {ld ld' : Loader} {ret : Nat} (h : Recorded A s₀ ld.space ld.table ld.regions)
    (hin : ValidRange c.addr c.length → Set.Ico c.addr (c.addr + pagesUp c.length) ⊆ A)
    (hrun : ld.mmapWrapper env content c = .ok (ret, ld')) :
    Recorded A s₀ ld'.space ld'.table ld'.regions ∧ (ret = mapFailed ∨ ret = c.addr) := by
  obtain ⟨hcalls, -⟩ := Loader.mmapWrapper_ok hrun
  have hregions := Loader.regions_append hcalls
  let answer := env.mmap content ld.calls.length ld.space c
  have hpatch : (CkptRestart.mmapWrapper ld.table c answer.1).patch = none :=
    patch_eq_none ld.table c (LoaderEnv.link_mmap ld.calls.length ld.space c hlink)
  simp only [Loader.mmapWrapper, hpatch, answer] at hrun
  cases hrun
  -- it is not libc, so nothing is patched
  rcases LoaderEnv.mmap_cases env content ld.calls.length ld.space c with
    ⟨hfailed, hpartly, _⟩ | ⟨hoffset, hret, _, hvalid, hspace⟩
  · obtain ⟨-, hret, htable⟩ := mmapWrapper_of_failed ld.table c hfailed
    refine ⟨?_, .inl hret⟩
    rw [hregions]
    show Recorded A s₀ answer.2 (CkptRestart.mmapWrapper ld.table c answer.1).table _
    rw [htable]
    simpa [MapEvent.region, answer, hret] using h.partly hpartly hin
  · have hvalid' : ValidRange answer.1.ret c.length := by
      rw [hret]
      exact hvalid
    have haddr : answer.1.ret = c.addr := hret
    have hout : (CkptRestart.mmapWrapper ld.table c answer.1).ret = answer.1.ret := by
      simp [CkptRestart.mmapWrapper, hoffset, hvalid'.ne_mapFailed]
    rw [hregions, MapEvent.region, if_neg (by rw [hout]; exact hvalid'.ne_mapFailed)]
    refine ⟨?_, .inr (hout.trans haddr)⟩
    rw [Option.toList_some, hout]
    refine h.mapFixed hoffset hvalid' (by rw [haddr]; exact hin hvalid) ?_ fun x hx => ?_
    · show answer.2.maps = _
      have hsame : (ld.space.mapFixed answer.1.ret c.length c.prot hvalid').maps =
          (ld.space.mapFixed c.addr c.length c.prot hvalid).maps := by
        simp only [haddr]
      rw [hsame, hspace]
      split <;> rfl
    · rw [haddr] at hx
      show answer.2.bytes x = ld.space.bytes x
      rw [hspace]
      exact bytes_mapSpace_outside ld.space hvalid hx

/-! ## One segment -/

/-- The addresses behind the base of a rank. -/
def ldSoRoom (rankId : Int) : Set Nat :=
  Set.Ico (loadBase rankId) (loadBase rankId + ldSoWindow)

/-- A segment that ends in the first half of the room.  The base moves by less than that when the first
segment has pages behind those of the file. -/
structure HalfRoom (content : List UInt8) (p : Elf64Phdr) : Prop where
  segment : LoadableSegment content p
  half : p.pVaddr + p.pMemsz ≤ ldSoWindow / 2

/-- What holds before and after every segment. -/
structure RecordedLoader (rankId : Int) (s₀ : AddrSpace) (ld : Loader) : Prop where
  recorded : Recorded (ldSoRoom rankId) s₀ ld.space ld.table ld.regions
  base : ld.firstTime = false → Base ld.baseAddress ∧ loadBase rankId ≤ ld.baseAddress ∧
    ld.baseAddress ≤ loadBase rankId + ldSoWindow / 2

section Segment

variable {p : Elf64Phdr} {b : Nat}

theorem HalfRoom.pages (h : HalfRoom content p) :
    pagesUp (p.pVaddr + p.pFilesz) ≤ ldSoWindow / 2 ∧
      pagesUp (p.pVaddr + p.pMemsz) ≤ ldSoWindow / 2 ∧
        pagesUp (p.pVaddr + p.pFilesz) ≤ pagesUp (p.pVaddr + p.pMemsz) := by
  have haligned : PageAligned (ldSoWindow / 2) := by decide
  have hsize := h.segment.size
  have hmem := pagesUp_le h.half haligned
  have hfile := pagesUp_le (le_trans (Nat.add_le_add_left hsize p.pVaddr) (le_pagesUp _))
    (pageAligned_pagesUp (p.pVaddr + p.pMemsz))
  exact ⟨le_trans hfile hmem, hmem, hfile⟩

/-- From a base in the first half of the room, the pages of the segment stay in the room. -/
theorem HalfRoom.subset (h : HalfRoom content p) {rankId : Int} (hlo : loadBase rankId ≤ b)
    (hhi : b ≤ loadBase rankId + ldSoWindow / 2) {x y : Nat} (hx : b ≤ x)
    (hy : y ≤ b + pagesUp (p.pVaddr + p.pMemsz)) : Set.Ico x y ⊆ ldSoRoom rankId := by
  have hmem := h.pages.2.1
  refine Set.Ico_subset_Ico (le_trans hlo hx) ?_
  unfold ldSoWindow at *
  omega

theorem Recorded.fileCall {rankId : Int} (hlink : checkLibrary env.link libcName = none)
    (h : HalfRoom content p) (hb : Base b) (hlo : loadBase rankId ≤ b)
    (hhi : b ≤ loadBase rankId + ldSoWindow / 2) {ld ld' : Loader} {ret : Nat}
    (hrec : Recorded (ldSoRoom rankId) s₀ ld.space ld.table ld.regions)
    (hrun : ld.mmapWrapper env content (fileCall env.ldSoFd b p) = .ok (ret, ld')) :
    Recorded (ldSoRoom rankId) s₀ ld'.space ld'.table ld'.regions ∧
      (ret = mapFailed ∨ ret = b + roundDown p.pVaddr) := by
  have haddr := @CkptRestart.fileCall_addr content p b h.segment hb env.ldSoFd
  rw [← haddr]
  refine hrec.mmapWrapper hlink (fun _ => ?_) hrun
  rw [fileCall_end h.segment hb, haddr]
  exact h.subset hlo hhi (Nat.le_add_right _ _) (Nat.add_le_add_left h.pages.2.2 _)

theorem Recorded.bssCall {rankId : Int} (hlink : checkLibrary env.link libcName = none)
    (h : HalfRoom content p) (hb : Base b) (hlo : loadBase rankId ≤ b)
    (hhi : b ≤ loadBase rankId + ldSoWindow / 2)
    (hlt : b + pagesUp (p.pVaddr + p.pFilesz) < b + pagesUp (p.pVaddr + p.pMemsz))
    {ld ld' : Loader} {ret : Nat} (hrec : Recorded (ldSoRoom rankId) s₀ ld.space ld.table ld.regions)
    (hrun : ld.mmapWrapper env content (bssCall (b + pagesUp (p.pVaddr + p.pFilesz))
      (b + pagesUp (p.pVaddr + p.pMemsz)) p) = .ok (ret, ld')) :
    Recorded (ldSoRoom rankId) s₀ ld'.space ld'.table ld'.regions ∧
      (ret = mapFailed ∨ ret = b + pagesUp (p.pVaddr + p.pFilesz)) := by
  refine hrec.mmapWrapper hlink (fun _ => ?_) hrun
  have hend := @bssCall_end p _ _
    (Nat.dvd_add hb.aligned (pageAligned_pagesUp (p.pVaddr + p.pFilesz)))
    (Nat.dvd_add hb.aligned (pageAligned_pagesUp (p.pVaddr + p.pMemsz))) (Nat.le_of_lt hlt)
  rw [hend]
  exact h.subset hlo hhi (Nat.le_add_right _ _) le_rfl

/-- The `memset` stays in the last page of what the file has. -/
theorem Recorded.clearBss {rankId : Int} (h : HalfRoom content p) (hb : Base b)
    (hlo : loadBase rankId ≤ b) (hhi : b ≤ loadBase rankId + ldSoWindow / 2) {ld ld' : Loader}
    (hrec : Recorded (ldSoRoom rankId) s₀ ld.space ld.table ld.regions)
    (hrun : ld.clearBss p (wrap (b + p.pVaddr + p.pFilesz)) = .ok ld') :
    ∃ space, ld' = { ld with space := space } ∧
      Recorded (ldSoRoom rankId) s₀ space ld.table ld.regions := by
  unfold Loader.clearBss at hrun
  split at hrun
  · rcases Exec.bind_eq_ok_iff.1 hrun with ⟨space, hclear, hret⟩
    cases hret
    refine ⟨space, rfl, ?_⟩
    unfold AddrSpace.clear at hclear
    split at hclear
    · cases hclear
      refine hrec.store ?_
      have hpages := h.pages
      have hup := le_pagesUp (p.pVaddr + p.pFilesz)
      have hstart : wrap (b + p.pVaddr + p.pFilesz) = b + (p.pVaddr + p.pFilesz) := by
        rw [Nat.add_assoc]
        exact hb.wrap_add h.segment.fileEnd_le
      rw [List.length_replicate, hb.roundUp_wrap h.segment.fileEnd_le, hstart,
        toUnsigned_sub (Nat.add_le_add_left hup b)
          (lt_of_le_of_lt (Nat.add_le_add hb.le hpages.1) (by decide))]
      refine h.subset hlo hhi (Nat.le_add_right _ _) ?_
      omega
    · cases hclear
  · cases hrun
    exact ⟨ld.space, rfl, hrec⟩

end Segment

/-- The base for a segment. -/
theorem RecordedLoader.setBase (hwindow : loadBase env.rankId + ldSoWindow ≤ 2 ^ 63) {ld : Loader}
    (h : RecordedLoader env.rankId s₀ ld) :
    Base (ld.setBase env.rankId).baseAddress ∧
      loadBase env.rankId ≤ (ld.setBase env.rankId).baseAddress ∧
        (ld.setBase env.rankId).baseAddress ≤ loadBase env.rankId + ldSoWindow / 2 := by
  cases hfirst : ld.firstTime with
  | true =>
      rw [setBase_first _ hfirst]
      exact ⟨⟨pageAligned_loadBase _, le_trans (Nat.le_add_right _ _) hwindow⟩, le_rfl,
        Nat.le_add_right _ _⟩
  | false =>
      rw [setBase_later _ hfirst]
      exact h.base hfirst

/-- The base for the next segments is one of the places of the first. -/
theorem RecordedLoader.fixBase (hwindow : loadBase env.rankId + ldSoWindow ≤ 2 ^ 63)
    {p : Elf64Phdr} (h : HalfRoom content p) {ld ld' : Loader} {rc : Nat}
    (hinv : RecordedLoader env.rankId s₀ ld)
    (hrec : Recorded (ldSoRoom env.rankId) s₀ ld'.space ld'.table ld'.regions)
    (hfirst : ld'.firstTime = ld.firstTime)
    (hbase : ld'.baseAddress = (ld.setBase env.rankId).baseAddress)
    (hrc : rc = (ld.setBase env.rankId).baseAddress + roundDown p.pVaddr ∨
      rc = (ld.setBase env.rankId).baseAddress + pagesUp (p.pVaddr + p.pFilesz)) :
    RecordedLoader env.rankId s₀ (ld'.fixBase rc) where
  recorded := by
    have htable : (ld'.fixBase rc).table = ld'.table := by
      unfold Loader.fixBase
      split <;> rfl
    rw [Loader.space_fixBase, htable, Loader.regions_of_calls (Loader.calls_fixBase rc ld')]
    exact hrec
  base := by
    intro _
    rw [Loader.baseAddress_fixBase, hfirst, hbase]
    cases hloader : ld.firstTime with
    | true =>
        -- the first segment is at the base of the rank
        rw [setBase_first _ hloader] at hrc
        rw [if_pos rfl]
        have hpages := h.pages
        have hdown : roundDown p.pVaddr ≤ pagesUp (p.pVaddr + p.pFilesz) := by
          rw [← roundDown_add_pagesUp]
          exact Nat.le_add_right _ _
        refine ⟨⟨?_, ?_⟩, ?_⟩
        · rcases hrc with rfl | rfl
          · exact Nat.dvd_add (pageAligned_loadBase _) (pageAligned_roundDown _)
          · exact Nat.dvd_add (pageAligned_loadBase _) (pageAligned_pagesUp _)
        · unfold ldSoWindow at *
          omega
        · omega
    | false =>
        rw [if_neg Bool.false_ne_true]
        exact hinv.setBase hwindow

theorem RecordedLoader.segment (hlink : checkLibrary env.link libcName = none)
    (hwindow : loadBase env.rankId + ldSoWindow ≤ 2 ^ 63) {p : Elf64Phdr}
    (h : HalfRoom content p) {ld ld' : Loader} {rc : Nat}
    (hinv : RecordedLoader env.rankId s₀ ld)
    (hrun : mapElfInterpreterLoadSegment env content p ld = .ok (rc, ld')) :
    RecordedLoader env.rankId s₀ ld' := by
  obtain ⟨hb, hlo, hhi⟩ := hinv.setBase hwindow
  unfold mapElfInterpreterLoadSegment at hrun
  split at hrun
  · cases hrun
  split at hrun
  · cases hrun
  rcases Exec.bind_eq_ok_iff.1 hrun with ⟨⟨rc₁, ld₁⟩, hfile, hrest⟩
  obtain ⟨-, -, hbase₁, hfirst₁, -⟩ := Loader.mmapWrapper_ok hfile
  rw [Loader.firstTime_setBase] at hfirst₁
  have hstart : Recorded (ldSoRoom env.rankId) s₀ (ld.setBase env.rankId).space
      (ld.setBase env.rankId).table (ld.setBase env.rankId).regions := by
    have htable : (ld.setBase env.rankId).table = ld.table := by
      unfold Loader.setBase
      split <;> rfl
    rw [Loader.space_setBase, htable, Loader.regions_of_calls (Loader.calls_setBase env.rankId ld)]
    exact hinv.recorded
  -- the pages of the file
  obtain ⟨hrec₁, hret₁⟩ := hstart.fileCall hlink h hb hlo hhi hfile
  dsimp only at hrest hbase₁
  by_cases hfailed₁ : rc₁ = mapFailed
  · rw [if_pos hfailed₁] at hrest
    cases hrest
    exact ⟨hrec₁, fun _ => hbase₁ ▸ ⟨hb, hlo, hhi⟩⟩
  rw [if_neg hfailed₁, hbase₁] at hrest
  rcases Exec.bind_eq_ok_iff.1 hrest with ⟨ld₂, hclear, hrest⟩
  -- the zeros behind its bytes
  obtain ⟨space, rfl, hrec₂⟩ := hrec₁.clearBss h hb hlo hhi hclear
  rcases Exec.bind_eq_ok_iff.1 hrest with ⟨⟨rc₂, ld₃⟩, hbss, hlast⟩
  rw [hb.roundUp_wrap h.segment.fileEnd_le, hb.roundUp_wrap h.segment.window] at hbss
  dsimp only at hlast
  unfold Loader.mapBss at hbss
  split at hbss
  · next hlt =>
      -- two mappings
      obtain ⟨-, -, hbase₃, hfirst₃, -⟩ := Loader.mmapWrapper_ok hbss
      obtain ⟨hrec₃, hret₃⟩ := Recorded.bssCall hlink h hb hlo hhi hlt hrec₂ hbss
      by_cases hfailed₃ : rc₂ = mapFailed
      · rw [if_pos hfailed₃] at hlast
        cases hlast
        exact ⟨hrec₃, fun _ => (hbase₃.trans hbase₁) ▸ ⟨hb, hlo, hhi⟩⟩
      · rw [if_neg hfailed₃] at hlast
        cases hlast
        exact hinv.fixBase hwindow h hrec₃ (hfirst₃.trans hfirst₁) (hbase₃.trans hbase₁)
          (.inr (hret₃.resolve_left hfailed₃))
  · -- one mapping
    cases hbss
    rw [if_neg hfailed₁] at hlast
    cases hlast
    exact hinv.fixBase hwindow h hrec₂ hfirst₁ hbase₁ (.inl (hret₁.resolve_left hfailed₁))

/-! ## All segments -/

/-- A file as `load_elf_interpreter` expects it, all of whose segments end in the first half of the
room. -/
structure LoadableInHalf (rankId : Int) (content : List UInt8) : Prop where
  loadable : Loadable rankId content
  half : ∀ p ∈ loadSegments content, p.pVaddr + p.pMemsz ≤ ldSoWindow / 2

theorem RecordedLoader.loadHeader (hlink : checkLibrary env.link libcName = none)
    (hl : LoadableInHalf env.rankId content) {i : Nat} (hi : i < (fileHeader content).ePhnum)
    {st st' : HeaderLoop}
    (hfd : st.fd = ⟨content, (fileHeader content).ePhoff + phdrSize * i⟩)
    (hinv : RecordedLoader env.rankId s₀ st.loader)
    (hrun : CkptRestart.loadHeader env st i = .ok st') :
    st'.fd = ⟨content, (fileHeader content).ePhoff + phdrSize * (i + 1)⟩ ∧
      RecordedLoader env.rankId s₀ st'.loader := by
  rw [hl.loadable.loadHeader_eq hi hfd] at hrun
  split at hrun
  · next hload =>
      rcases Exec.bind_eq_ok_iff.1 hrun with ⟨⟨rc, ld⟩, hmap, hret⟩
      cases hret
      have hmem : programHeader content i ∈ loadSegments content := by
        simp only [loadSegments, segmentsUpTo, List.mem_filter, List.mem_map, List.mem_range,
          decide_eq_true_eq]
        exact ⟨⟨i, hi, rfl⟩, hload⟩
      have hsegment : HalfRoom content (programHeader content i) :=
        ⟨hl.loadable.segment _ hmem, hl.half _ hmem⟩
      have hbefore : RecordedLoader env.rankId s₀ { st.loader with header := i } :=
        ⟨hinv.recorded, hinv.base⟩
      exact ⟨rfl, hbefore.segment hlink hl.loadable.window hsegment hmap⟩
  · cases hrun
    exact ⟨rfl, hinv⟩

/-- The assertions on the file hold, and the loop starts at its first header. -/
theorem Loadable.loadElfInterpreter_eq (hl : Loadable env.rankId content) (info : DynObjInfo)
    (ld : Loader) :
    loadElfInterpreter env content info ld =
      (Exec.steps (CkptRestart.loadHeader env) (List.range (fileHeader content).ePhnum)
        ⟨⟨content, (fileHeader content).ePhoff⟩, true, 0, ld⟩ >>= fun st =>
          pure (st.baseAddr, (fileHeader content).eEntry,
            { info with
              phnum := (fileHeader content).ePhnum
              phdr := wrap (st.baseAddr + (fileHeader content).ePhoff) }, st.loader)) := by
  have hheader := hl.header
  have hstart : (⟨content, 0⟩ : FileDesc).pos + ehdrSize ≤ content.length := by simpa using hheader
  have hident : (⟨content, 0⟩ : FileDesc).pos + eiNident ≤ content.length :=
    le_trans (by decide : 0 + eiNident ≤ 0 + ehdrSize) hstart
  have hmagic : ¬ (slice (slice content 0 eiNident) 0 elfMag.length ≠ elfMag ∨
      (slice content 0 eiNident).getD eiClass 0 ≠ elfClass64) :=
    not_or.2 ⟨not_not.2 hl.magic, not_not.2 hl.class64⟩
  have hdecode : decodeEhdr (slice content 0 ehdrSize) = fileHeader content := rfl
  have hlt := hl.phoff_lt
  have hoff : toUnsigned (toInt32 (fileHeader content).ePhoff) = (fileHeader content).ePhoff := by
    rw [toInt32, Int.bmod_eq_of_le (by omega) (by omega), toUnsigned_natCast]
    exact lt_trans hlt (by decide)
  have hseek : (fileHeader content).ePhoff < 2 ^ 63 := lt_trans hlt (by decide)
  simp only [loadElfInterpreter, FileDesc.read_of_le hident, length_slice hident, ne_eq,
    not_true_eq_false, if_false, if_neg hmagic, FileDesc.lseek_of_lt _ (by decide : 0 < 2 ^ 63),
    FileDesc.read_of_le hstart, length_slice hstart, hdecode, hoff,
    FileDesc.lseek_of_lt _ hseek]

/-- Whatever mappings the kernel refuses, those that are made for ld.so are in its room. -/
theorem safeLoadLib_recorded (hlink : checkLibrary env.link libcName = none)
    (hl : LoadableInHalf env.rankId content) {name : List UInt8}
    (hfile : env.files (env.elfInterpreter name) = some content) {space : AddrSpace}
    {info : DynObjInfo} {ld : Loader}
    (hrun : safeLoadLib env name (.start space .initial) = .ok (info, ld)) :
    Recorded (ldSoRoom env.rankId) space ld.space ld.table ld.regions := by
  simp only [safeLoadLib, hfile, hl.loadable.loadElfInterpreter_eq] at hrun
  rcases Exec.bind_eq_ok_iff.1 hrun with ⟨⟨baseAddr, entry, info₁, ld₁⟩, hload, hrest⟩
  rcases Exec.bind_eq_ok_iff.1 hrest with ⟨mmapOffset, _, hrest⟩
  rcases Exec.bind_eq_ok_iff.1 hrest with ⟨sbrkOffset, _, hrest⟩
  rcases Exec.bind_eq_ok_iff.1 hload with ⟨st, hsteps, hst⟩
  cases hst
  cases hrest
  have hinit : RecordedLoader env.rankId space (.start space .initial) :=
    ⟨.initial _ space, fun hfalse => absurd hfalse.symm Bool.false_ne_true⟩
  -- header by header: the descriptor is at the next one, and the invariant holds
  have hinv := @Exec.steps_range_of_ok _ (CkptRestart.loadHeader env)
    (fun i st => st.fd = ⟨content, (fileHeader content).ePhoff + phdrSize * i⟩ ∧
      RecordedLoader env.rankId space st.loader) _
    (fun i hi _ _ hst hstep => hst.2.loadHeader hlink hl hi hst.1 hstep) _ _ ⟨rfl, hinit⟩ hsteps
  exact hinv.2.recorded

end Loading

end CkptRestart
