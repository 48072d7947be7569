import CkptRestart.RoundTrip

/-!
# LastPage — regions that end inside a page

The wrapper records the length a caller asked for, while the kernel maps and lists whole pages.  The
record of such an area is cut down to the region, so what lies behind it in the last page is not
written, and the restored page has zeros there.

`survives_iff` says when an area is restored byte by byte all the same.
-/

namespace CkptRestart

open Lib

/-! ## Records of regions of any length -/

theorem recordAt_mappable {s : MapsSnapshot} {area : Area} {t : MmapInfo} (harea : area ∈ s.areas)
    (hne : area.addr < area.endAddr) (ht : ValidRange t.addr t.len) (hnest : nests area t = true) :
    Mappable (recordAt area t) ∧ (recordAt area t).pages ⊆ area.range := by
  have hfits := s.fits area harea
  have haligned := s.aligned area harea
  by_cases hin : regionContains t.addr t.uhMmapEnd area.addr area.endAddr = true
  · -- the area itself is whole pages
    have hend : area.endAddr = area.addr + area.size := by
      have := s.sized area harea
      omega
    have hwhole : pagesUp area.size = area.size := by
      rw [s.sized area harea]
      exact pagesUp_of_aligned (Nat.dvd_sub haligned.2 haligned.1)
    rw [recordAt_of_inside hin]
    constructor
    · refine ⟨hfits, ⟨haligned.1, by omega, ?_⟩, hend⟩
      rw [hwhole, ← hend]
      exact hfits.endAddr
    · rw [Area.pages, hwhole, ← hend]
      exact subset_rfl
  · have hroom := lt_of_le_of_lt (Nat.add_le_add_left (le_pagesUp t.len) t.addr) ht.room
    have hend : t.uhMmapEnd = t.addr + t.len := wrap_of_lt hroom
    have hrecord := recordAt_spec hnest
    have hfit := recordAt_fits hfits ht.start_lt ht.len_lt
    rw [recordAt_of_not_inside hin] at hfit hrecord ⊢
    refine ⟨⟨hfit, ht, hend⟩, Set.Ico_subset_Ico hrecord.addr_le ?_⟩
    have hlow : area.addr ≤ t.addr := hrecord.addr_le
    have hhigh : t.addr + t.len ≤ area.endAddr := le_of_eq_of_le hend.symm hrecord.endAddr_le
    -- the last page of the region is a page of the area
    have hpages : pagesUp t.len ≤ area.endAddr - t.addr :=
      pagesUp_le (by omega) (Nat.dvd_sub haligned.2 ht.aligned)
    show t.addr + pagesUp t.len ≤ area.endAddr
    omega

/-- The records of a checkpoint can be mapped one after the other, whatever lengths were asked for. -/
theorem selectRecords_mappable {s : MapsSnapshot} {tracked : List MmapInfo}
    (hareas : ∀ a ∈ s.areas, a.addr < a.endAddr)
    (htracked : ∀ t ∈ tracked, ValidRange t.addr t.len) :
    MappableAll (selectRecords (some tracked) s.areas) where
  each := by
    intro r hr
    rcases mem_selectRecords.1 hr with ⟨a, ha, _, _, t, hfind, rfl⟩
    exact (recordAt_mappable ha (hareas a ha) (htracked t (List.mem_of_find?_eq_some hfind))
      (nests_of_find? hfind)).1
  disjoint := by
    have hpages : ∀ a ∈ s.areas, ∀ r, recordOf (some tracked) a = some r → r.pages ⊆ a.range := by
      intro a ha r hr
      rcases recordOf_eq_some_iff.1 hr with ⟨_, _, t, hfind, rfl⟩
      exact (recordAt_mappable ha (hareas a ha) (htracked t (List.mem_of_find?_eq_some hfind))
        (nests_of_find? hfind)).2
    refine (List.Pairwise.and_mem.1 s.disjoint).filterMap _ fun a b hab r hr u hu => ?_
    rcases hab with ⟨ha, hb, hab⟩
    exact hab.mono (hpages a ha r hr) (hpages b hb u hu)

/-! ## An area of its own -/

/-- The kernel lists the mapping of a region as an area of its own, and no other region has a byte
of it. -/
structure OwnArea (s : MapsSnapshot) (tracked : List MmapInfo) (t : MmapInfo) (a : Area) : Prop where
  listed : a ∈ s.areas
  addr : a.addr = t.addr
  endAddr : a.endAddr = roundUp (t.addr + t.len)
  readable : a.readable = true
  alone : ∀ u ∈ tracked, u ≠ t → Disjoint u.range a.range

namespace OwnArea

variable {s : MapsSnapshot} {tracked : List MmapInfo} {t : MmapInfo} {a : Area}

theorem end_eq (h : OwnArea s tracked t a) (ht : ValidRange t.addr t.len) :
    a.endAddr = t.addr + pagesUp t.len := by
  have hpages := pagesUp_le (Nat.add_le_add_left (le_pagesUp t.len) t.addr) ht.aligned_end
  have hup := add_pagesUp_sub ht.aligned (Nat.le_add_right t.addr t.len)
  rw [Nat.add_sub_cancel_left] at hup
  rw [h.endAddr, hup, roundUp_eq_pagesUp (le_trans (le_pagesUp _) hpages) ht.aligned_end ht.room]

/-- A region that nests with the area shares a byte with it. -/
theorem eq_of_nests (h : OwnArea s tracked t a) (hne : a.addr < a.endAddr) {u : MmapInfo}
    (hu : u ∈ tracked) (hvalid : ValidRange u.addr u.len) (hnest : nests a u = true) : u = t := by
  by_contra hother
  have hroom := lt_of_le_of_lt (Nat.add_le_add_left (le_pagesUp u.len) u.addr) hvalid.room
  have hend : u.uhMmapEnd = u.addr + u.len := wrap_of_lt hroom
  have hpos := hvalid.pos
  have hapart := Set.Ico_disjoint_Ico.1 (h.alone u hu hother)
  simp only [nests, Bool.or_eq_true, regionContains_iff, hend] at hnest
  omega

theorem nests_self (h : OwnArea s tracked t a) (ht : ValidRange t.addr t.len) :
    nests a t = true := by
  have hroom := lt_of_le_of_lt (Nat.add_le_add_left (le_pagesUp t.len) t.addr) ht.room
  have hend : t.uhMmapEnd = t.addr + t.len := wrap_of_lt hroom
  have hpages := le_pagesUp t.len
  simp only [nests, Bool.or_eq_true, regionContains_iff, hend, h.end_eq ht, h.addr]
  omega

theorem find?_eq_some_iff (h : OwnArea s tracked t a) (hne : a.addr < a.endAddr)
    (htracked : ∀ u ∈ tracked, ValidRange u.addr u.len) (ht : ValidRange t.addr t.len)
    {u : MmapInfo} : tracked.find? (nests a) = some u ↔ t ∈ tracked ∧ u = t := by
  constructor
  · intro hfind
    have hu := List.mem_of_find?_eq_some hfind
    obtain rfl := h.eq_of_nests hne hu (htracked u hu) (nests_of_find? hfind)
    exact ⟨hu, rfl⟩
  · rintro ⟨hmem, rfl⟩
    cases hfind : tracked.find? (nests a) with
    | none => exact absurd (h.nests_self ht) (List.find?_eq_none.1 hfind u hmem)
    | some v =>
        have hv := List.mem_of_find?_eq_some hfind
        rw [h.eq_of_nests hne hv (htracked v hv) (nests_of_find? hfind)]

/-- The record of the area has its pages and protection, and the length of the region. -/
theorem recordAt_self (h : OwnArea s tracked t a) (ht : ValidRange t.addr t.len) :
    (recordAt a t).addr = t.addr ∧ (recordAt a t).size = t.len ∧ (recordAt a t).prot = a.prot := by
  rcases recordAt_spec (h.nests_self ht) with ⟨hprot, _, _, _, ⟨hsame, _, hcontained⟩ | ⟨haddr, _, hsize⟩⟩
  · -- then the region ends with its last page
    have hroom := lt_of_le_of_lt (Nat.add_le_add_left (le_pagesUp t.len) t.addr) ht.room
    have hend : t.uhMmapEnd = t.addr + t.len := wrap_of_lt hroom
    have hpages := le_pagesUp t.len
    have hsized := s.sized a h.listed
    rw [hend, h.end_eq ht] at hcontained
    rw [h.end_eq ht, h.addr] at hsized
    exact ⟨by rw [hsame, h.addr], by rw [hsame]; omega, hprot⟩
  · exact ⟨haddr, hsize, hprot⟩

end OwnArea

/-! ## Checkpoint and restore -/

/-- A checkpoint whose writes succeed, and a process that can restore it: where the pages of its
records go, and where the area `a` was, nothing is mapped, and the kernel does what is asked for the
records. -/
structure Trip (m : Mem) (tracked : List MmapInfo) (a : Area) (st : CkptRestartState)
    (replies reads : List (Reply Errno)) (f : OutFile) (k : Kernel) (r : Restorer) : Prop where
  areas : ∀ b ∈ m.maps.areas, b.addr < b.endAddr
  fits : st.Fits
  write : writeImage st m tracked replies = .ok f
  delivers : Delivers retries replies (imageRequests (selectRecords (some tracked) m.maps.areas))
  honest : k.Honest
  takes : k.TakesAll (m.saved (selectRecords (some tracked) m.maps.areas)) r
  records : PagesFree r.space (selectRecords (some tracked) m.maps.areas)
  place : ∀ x ∈ a.range, r.space.protAt x = none
  ready : (⟨f.content, reads⟩ : InFile).Ready

/-- The restore succeeds, and every byte of the area is mapped again and what it was. -/
def Survives (m : Mem) (a : Area) (k : Kernel) (img : Image) (r : Restorer) : Prop :=
  ∃ st r', restoreMemoryForImage k img r = .ok (0, st, r') ∧
    ∀ x ∈ a.range, r'.space.protAt x = some a.prot ∧ r'.space.bytes x = m.bytes x

section Trip

variable {m : Mem} {tracked : List MmapInfo} {t : MmapInfo} {a : Area} {st : CkptRestartState}
  {replies reads : List (Reply Errno)} {f : OutFile} {k : Kernel} {r : Restorer}
  (htracked : ∀ u ∈ tracked, ValidRange u.addr u.len)
  (htrip : Trip m tracked a st replies reads f k r)
include htracked htrip

theorem Trip.restored :
    ∃ r', restoreMemoryForImage k ⟨some f.content, reads⟩ r = .ok (0, st, r') ∧
      Holds r.space r'.space (m.saved (selectRecords (some tracked) m.maps.areas)) := by
  have hcontent := writeImage_content htrip.write htrip.delivers
  have hready := htrip.ready
  rw [hcontent] at hready
  have hrecords := selectRecords_mappable htrip.areas htracked
  have hplaced := hrecords.placed (m := m) htrip.records
  have himg : (⟨some f.content, reads⟩ : Image).content = _ := congrArg some hcontent
  exact ⟨_, restoreMemoryForImage_spec htrip.honest htrip.fits
    (fun b hb => (hrecords.each b hb).fits) hplaced htrip.takes himg hready, restoredAll_holds hplaced⟩

/-- The area of a region that is written comes back with zeros behind the region. -/
theorem Trip.restored_area (ht : ValidRange t.addr t.len) (hown : OwnArea m.maps tracked t a)
    (hmem : t ∈ tracked) (hname : skippedName a.name = false) {r' : Restorer}
    (hrestored : Holds r.space r'.space (m.saved (selectRecords (some tracked) m.maps.areas)))
    {x : Nat} (hx : x ∈ a.range) :
    r'.space.protAt x = some a.prot ∧
      r'.space.bytes x = if x < t.addr + t.len then m.bytes x else 0 := by
  have hne := htrip.areas a hown.listed
  have hfind := (hown.find?_eq_some_iff hne htracked ht).2 ⟨hmem, rfl⟩
  have hrecord : recordAt a t ∈ selectRecords (some tracked) m.maps.areas :=
    mem_selectRecords.2 ⟨a, hown.listed, hown.readable, hname, t, hfind, rfl⟩
  have hmappable := (selectRecords_mappable htrip.areas htracked).each
  rcases hown.recordAt_self ht with ⟨haddr, hsize, hprot⟩
  have hpages : x ∈ (recordAt a t).pages := by
    rw [Area.mem_pages, haddr, hsize, ← hown.end_eq ht, ← hown.addr]
    exact hx
  obtain ⟨hbytes, hprotAt⟩ := hrestored.saved (List.Subset.refl _) hmappable hrecord hpages
  exact ⟨by rw [hprotAt, hprot], by rw [hbytes, haddr, hsize]⟩

/-- An area of which no record was written is not mapped again. -/
theorem Trip.not_restored (ht : ValidRange t.addr t.len) (hown : OwnArea m.maps tracked t a)
    (hno : ¬ (t ∈ tracked ∧ skippedName a.name = false)) {r' : Restorer}
    (hrestored : Holds r.space r'.space (m.saved (selectRecords (some tracked) m.maps.areas)))
    {x : Nat} (hx : x ∈ a.range) : r'.space.protAt x = none := by
  rw [hrestored.protAt_outside, htrip.place x hx]
  intro e he hxu
  rcases Mem.mem_saved.1 he with ⟨u, hu, rfl⟩
  rcases mem_selectRecords.1 hu with ⟨b, hb, _, hname, v, hfind, rfl⟩
  have hv := List.mem_of_find?_eq_some hfind
  have hxb := (recordAt_mappable hb (htrip.areas b hb) (htracked v hv) (nests_of_find? hfind)).2 hxu
  -- a record that reaches into the area is its own
  obtain rfl := Area.eq_of_mem_range m.maps.disjoint hb hown.listed hxb hx
  have hne := htrip.areas b hb
  exact hno ⟨((hown.find?_eq_some_iff hne htracked ht).1 hfind).1, hname⟩

theorem Trip.survives_area_iff (ht : ValidRange t.addr t.len) (hown : OwnArea m.maps tracked t a) :
    Survives m a k ⟨some f.content, reads⟩ r ↔
      t ∈ tracked ∧ skippedName a.name = false ∧
        ∀ x, t.addr + t.len ≤ x → x < a.endAddr → m.bytes x = 0 := by
  have hne := htrip.areas a hown.listed
  rcases htrip.restored htracked with ⟨r₁, hres, hrestored⟩
  constructor
  · rintro ⟨st', r', hres', hall⟩
    obtain ⟨rfl, rfl⟩ : st = st' ∧ r₁ = r' := by simpa [hres] using hres'
    by_cases hwritten : t ∈ tracked ∧ skippedName a.name = false
    · refine ⟨hwritten.1, hwritten.2, fun x hlo hhi => ?_⟩
      have hx : x ∈ a.range := ⟨by have := hown.addr; omega, hhi⟩
      have hzero := (htrip.restored_area htracked ht hown hwritten.1 hwritten.2 hrestored hx).2
      rw [if_neg (Nat.not_lt.2 hlo)] at hzero
      exact (hall x hx).2.symm.trans hzero
    · have hx : a.addr ∈ a.range := ⟨le_rfl, hne⟩
      have hnone := htrip.not_restored htracked ht hown hwritten hrestored hx
      simp [(hall _ hx).1] at hnone
  · rintro ⟨hmem, hname, hzero⟩
    refine ⟨st, r₁, hres, fun x hx => ?_⟩
    rcases htrip.restored_area htracked ht hown hmem hname hrestored hx with ⟨hprot, hbytes⟩
    refine ⟨hprot, ?_⟩
    rw [hbytes]
    split
    · rfl
    · exact (hzero x (by omega) hx.2).symm

end Trip

/-- The area of a call of `mmapWrapper` survives a checkpoint and a restore exactly if the call is
still in the list, its name does not make the checkpoint skip it, and there are only zeros between
the end of the requested length and the end of its last page. -/
theorem survives_iff {calls : List (MmapCall × MmapWorld)}
    (hcalls : ∀ co ∈ (runMmaps calls .initial).1, co.2.ret ≠ mapFailed →
      ValidRange co.2.ret co.1.length)
    {co : MmapCall × MmapOut} (hco : co ∈ (runMmaps calls .initial).1)
    (hsuccess : co.2.ret ≠ mapFailed) {m : Mem} {a : Area} {st : CkptRestartState}
    {replies reads : List (Reply Errno)} {f : OutFile} {k : Kernel} {r : Restorer}
    (hown : OwnArea m.maps (mmappedList (runMmaps calls .initial).2) ⟨co.2.ret, co.1.length⟩ a)
    (htrip : Trip m (mmappedList (runMmaps calls .initial).2) a st replies reads f k r) :
    Survives m a k ⟨some f.content, reads⟩ r ↔
      ⟨co.2.ret, co.1.length⟩ ∈ mmappedList (runMmaps calls .initial).2 ∧
        skippedName a.name = false ∧
        ∀ x, co.2.ret + co.1.length ≤ x → x < a.endAddr → m.bytes x = 0 := by
  apply htrip.survives_area_iff ?_ (hcalls co hco hsuccess) hown
  intro u hu
  rw [mmappedList_runMmaps] at hu
  rcases (mem_mappedRegions_iff calls .initial u).1 (List.mem_of_mem_drop hu) with
    ⟨co', hco', hne, rfl⟩
  exact hcalls co' hco' hne

/-! ## A page and a half -/

/-- A call that asks for a page and a half and gets `mergedHeap`. -/
def pageAndAHalf : MmapCall × MmapWorld :=
  (⟨0, 0x1800, protRead ||| protWrite, mapPrivate ||| mapAnonymous, -1, 0⟩,
    ⟨0x10000, .ENOMEM, none⟩)

def pageAndAHalfList : List MmapInfo := mmappedList (runMmaps [pageAndAHalf] .initial).2

theorem pageAndAHalfList_eq : pageAndAHalfList = [⟨0x10000, 0x1800⟩] := by
  rw [pageAndAHalfList, mmappedList_runMmaps]
  decide

/-- Every write moves all it is asked to. -/
def pageAndAHalfWrites : List (Reply Errno) :=
  (imageRequests (selectRecords (some pageAndAHalfList) mergedHeapMaps.areas)).map .moved

theorem ownArea_pageAndAHalf :
    OwnArea mergedHeapMaps pageAndAHalfList ⟨0x10000, 0x1800⟩ mergedHeap where
  listed := List.mem_singleton_self _
  addr := rfl
  endAddr := by decide
  readable := rfl
  alone := by simp [pageAndAHalfList_eq]

/-- The heap is written and can be restored, whatever it holds. -/
theorem trip_pageAndAHalf (bytes : Nat → UInt8) :
    ∃ f, Trip ⟨mergedHeapMaps, bytes⟩ pageAndAHalfList mergedHeap .blank pageAndAHalfWrites
      (byteReads f.content) f .plain emptyRestorer := by
  have hdelivers := delivers_moved retries
    (imageRequests (selectRecords (some pageAndAHalfList) mergedHeapMaps.areas))
  rcases writeImage_of_delivers .blank ⟨mergedHeapMaps, bytes⟩ pageAndAHalfList hdelivers with
    ⟨f, hwrite⟩
  have hareas : ∀ b ∈ mergedHeapMaps.areas, b.addr < b.endAddr := by decide
  refine ⟨f, ⟨hareas, blank_fits, hwrite, hdelivers, Kernel.plain_honest, Kernel.plain_takesAll _ _, ?_,
    fun _ _ => rfl, ready_byteReads f.content⟩⟩
  intro _ _ g hg
  exact absurd hg List.not_mem_nil

/-- Zeros behind the requested bytes come back as zeros. -/
theorem survives_iff_zeros :
    ∃ f, writeImage .blank ⟨mergedHeapMaps, fun _ => 0⟩ pageAndAHalfList pageAndAHalfWrites = .ok f ∧
      (Survives ⟨mergedHeapMaps, fun _ => 0⟩ mergedHeap .plain ⟨some f.content, byteReads f.content⟩
          emptyRestorer ↔
        ⟨0x10000, 0x1800⟩ ∈ pageAndAHalfList ∧ skippedName mergedHeap.name = false ∧
          ∀ x, 0x10000 + 0x1800 ≤ x → x < mergedHeap.endAddr → (0 : UInt8) = 0) := by
  rcases trip_pageAndAHalf fun _ => 0 with ⟨f, htrip⟩
  have hcalls : (runMmaps [pageAndAHalf] .initial).1 =
      [(pageAndAHalf.1, mmapWrapper .initial pageAndAHalf.1 pageAndAHalf.2)] := rfl
  have hret : (mmapWrapper .initial pageAndAHalf.1 pageAndAHalf.2).ret = 0x10000 := by decide
  refine ⟨f, htrip.write, ?_⟩
  rw [← hret]
  refine @survives_iff [pageAndAHalf] ?_ (pageAndAHalf.1,
    mmapWrapper .initial pageAndAHalf.1 pageAndAHalf.2) ?_ ?_ _ _ _ _ _ _ _ _ ?_ htrip
  · intro co hco _
    rw [hcalls, List.mem_singleton] at hco
    rw [hco, hret]
    decide
  · rw [hcalls]
    exact List.mem_singleton_self _
  · rw [hret]
    decide
  · rw [hret]
    exact ownArea_pageAndAHalf

/-- Bytes behind the requested ones are lost. -/
theorem not_survives_lastBytes :
    OwnArea mergedHeapMaps pageAndAHalfList ⟨0x10000, 0x1800⟩ mergedHeap ∧
      ∃ f, Trip ⟨mergedHeapMaps, fun _ => 7⟩ pageAndAHalfList mergedHeap .blank pageAndAHalfWrites
          (byteReads f.content) f .plain emptyRestorer ∧
        ¬ Survives ⟨mergedHeapMaps, fun _ => 7⟩ mergedHeap .plain
          ⟨some f.content, byteReads f.content⟩ emptyRestorer := by
  rcases trip_pageAndAHalf fun _ => 7 with ⟨f, htrip⟩
  refine ⟨ownArea_pageAndAHalf, f, htrip, fun hsurvives => ?_⟩
  have htracked : ∀ u ∈ pageAndAHalfList, ValidRange u.addr u.len := by
    rw [pageAndAHalfList_eq]
    decide
  have hvalid : ValidRange 0x10000 0x1800 := by decide
  have hzero := ((htrip.survives_area_iff htracked hvalid ownArea_pageAndAHalf).1 hsurvives).2.2 0x11800
    (by decide) (by decide)
  exact absurd hzero (by decide)

end CkptRestart
