import CkptRestart.MemCkpt.Handler
import CkptRestart.MemRestore.Records

/-!
# RoundTrip — restoring what was checkpointed

The image of a checkpoint whose writes succeed is restored, in a process where its records find their
places free, to the context, the bytes and the protections of the checkpoint.

`selectRecords_restorable` is the condition on the writer that the reader needs: the records that the
checkpoint selects can be mapped one after the other.  `restore_checkpoint` puts both together.
-/

namespace CkptRestart

open Lib

/-! ## The records of a checkpoint -/

/-- Regions of whole pages, as the mmap wrapper records them for calls with such lengths. -/
def WholePages (tracked : List MmapInfo) : Prop :=
  ∀ t ∈ tracked, PageAligned t.addr ∧ PageAligned t.len ∧ 0 < t.len

instance (tracked : List MmapInfo) : Decidable (WholePages tracked) :=
  inferInstanceAs (Decidable (∀ t ∈ tracked, _))

/-- Every write of the checkpoint succeeds: the requests are carried out in full, in any number of
pieces, and none is made of memory that is not mapped, which `write` refuses with `EFAULT`. -/
structure WritesSucceed (m : Mem) (records : List Area) (replies : List (Reply Errno)) : Prop where
  delivers : Delivers retries replies (imageRequests records)
  accessible : ∀ r ∈ records, ∀ x, r.addr ≤ x → x < r.addr + r.size →
    ∃ a ∈ m.maps.areas, x ∈ a.range

theorem recordAt_fits {area : Area} {t : MmapInfo} (harea : area.Fits) (haddr : t.addr < wordSize)
    (hlen : t.len < wordSize) : (recordAt area t).Fits := by
  by_cases hin : regionContains t.addr t.uhMmapEnd area.addr area.endAddr = true
  · rwa [recordAt_of_inside hin]
  · have hend : t.uhMmapEnd < wordSize := Nat.mod_lt _ (by decide)
    rw [recordAt_of_not_inside hin]
    exact ⟨haddr, hend, hlen, harea.offset, harea.prot, harea.flags, harea.devmajor, harea.devminor,
      harea.inodenum, harea.properties, harea.name_length, harea.name_nul⟩

/-- A tracked region that was written whole does not wrap. -/
theorem region_no_wrap {m : Mem} {t : MmapInfo} (hpos : 0 < t.len)
    (h : ∀ x, t.addr ≤ x → x < t.addr + t.len → ∃ a ∈ m.maps.areas, x ∈ a.range) :
    t.addr + t.len < wordSize := by
  -- the last byte of the region lies in an area, and areas end inside the address space
  rcases h (t.addr + t.len - 1) (by omega) (by omega) with ⟨a, ha, hx⟩
  have hend := (m.maps.fits a ha).endAddr
  have hlast := hx.2
  omega

theorem recordAt_restorable {m : Mem} {area : Area} {t : MmapInfo} (harea : area ∈ m.maps.areas)
    (hne : area.addr < area.endAddr) (ht : PageAligned t.addr ∧ PageAligned t.len ∧ 0 < t.len)
    (hacc : ∀ x, (recordAt area t).addr ≤ x →
      x < (recordAt area t).addr + (recordAt area t).size → ∃ a ∈ m.maps.areas, x ∈ a.range) :
    Restorable (recordAt area t) := by
  have hfits := m.maps.fits area harea
  have hsize := m.maps.sized area harea
  have haligned := m.maps.aligned area harea
  by_cases hin : regionContains t.addr t.uhMmapEnd area.addr area.endAddr = true
  · -- the area itself
    have hwhole : PageAligned area.size := by
      rw [hsize]
      exact Nat.dvd_sub haligned.2 haligned.1
    have hend : area.endAddr = area.addr + area.size := by omega
    rw [recordAt_of_inside hin]
    refine ⟨hfits, ⟨haligned.1, by omega, ?_⟩, hwhole, hend⟩
    rw [pagesUp_of_aligned hwhole, ← hend]
    exact hfits.endAddr
  · -- the tracked region
    rw [recordAt_of_not_inside hin] at hacc
    have hroom : t.addr + t.len < wordSize := region_no_wrap ht.2.2 hacc
    have hend : t.uhMmapEnd = t.addr + t.len := wrap_of_lt hroom
    have hfit := recordAt_fits hfits (by omega : t.addr < wordSize) (by omega : t.len < wordSize)
    rw [recordAt_of_not_inside hin] at hfit ⊢
    refine ⟨hfit, ⟨ht.1, ht.2.2, ?_⟩, ht.2.1, hend⟩
    show t.addr + pagesUp t.len < wordSize
    rwa [pagesUp_of_aligned ht.2.1]

/-- The records that a checkpoint writes can be mapped one after the other. -/
theorem selectRecords_restorable {m : Mem} {tracked : List MmapInfo}
    {replies : List (Reply Errno)} (hareas : ∀ a ∈ m.maps.areas, a.addr < a.endAddr)
    (htracked : WholePages tracked)
    (hwrites : WritesSucceed m (selectRecords (some tracked) m.maps.areas) replies) :
    RestorableAll (selectRecords (some tracked) m.maps.areas) where
  each := by
    intro r hr
    have hacc := hwrites.accessible r hr
    rcases mem_selectRecords.1 hr with ⟨a, ha, _, _, t, hfind, rfl⟩
    exact recordAt_restorable ha (hareas a ha) (htracked t (List.mem_of_find?_eq_some hfind)) hacc
  disjoint := selectRecords_disjoint tracked m.maps.disjoint

/-! ## The round trip -/

/-- The calls of `checkpointContext` and `checkpointMemory` on an image file that was just opened. -/
def writeImage (st : CkptRestartState) (m : Mem) (tracked : List MmapInfo)
    (replies : List (Reply Errno)) : Exec OutFile := do
  let ckptfd ← Exec.ofOption (checkpointContext st ⟨[], 0, replies⟩)
  checkpointMemory true m (some tracked) ckptfd

theorem writeImage_content {st : CkptRestartState} {m : Mem} {tracked : List MmapInfo}
    {replies : List (Reply Errno)} {f : OutFile} (h : writeImage st m tracked replies = .ok f)
    (hwrites : Delivers retries replies
      (imageRequests (selectRecords (some tracked) m.maps.areas))) :
    f.content = imageBytes st m (selectRecords (some tracked) m.maps.areas) := by
  let p : Proc := ⟨.RUNNING, true, some tracked, m⟩
  have hbuffers := checkpoint_writes { callsWriting replies with mapsOpens := true } p st
    ⟨[], 0, replies⟩ rfl
  have hok := Exec.ofOption_eq_ok_iff.1 (hbuffers.symm.trans h)
  exact (image_written_iff hok).2 hwrites

/-- Requests that are carried out in full leave no write running. -/
theorem writeImage_of_delivers (st : CkptRestartState) (m : Mem) (tracked : List MmapInfo)
    {replies : List (Reply Errno)}
    (hwrites : Delivers retries replies
      (imageRequests (selectRecords (some tracked) m.maps.areas))) :
    ∃ f, writeImage st m tracked replies = .ok f := by
  have hbuffers : Delivers retries replies
      ((imageBuffers st m (selectRecords (some tracked) m.maps.areas)).map List.length) := by
    rwa [map_length_imageBuffers]
  rcases @writeBuffers_of_delivers _ ⟨[], 0, replies⟩ rfl hbuffers with ⟨f, hf⟩
  have hrun := checkpoint_writes (callsWriting replies) ⟨.RUNNING, true, some tracked, m⟩ st
    ⟨[], 0, replies⟩ rfl
  rw [Proc.records, hf] at hrun
  exact ⟨f, hrun⟩

/-- A checkpoint whose writes succeed is undone by restoring it where its records find their places
free: the context, the bytes and the protections come back, nothing else changes, and the new
process tracks the records. -/
theorem restore_checkpoint {m : Mem} {tracked : List MmapInfo} {st : CkptRestartState}
    {replies reads : List (Reply Errno)} {f : OutFile} {k : Kernel} {r : Restorer}
    (hareas : ∀ a ∈ m.maps.areas, a.addr < a.endAddr) (htracked : WholePages tracked)
    (hst : st.Fits) (hwrite : writeImage st m tracked replies = .ok f)
    (hsucceed : WritesSucceed m (selectRecords (some tracked) m.maps.areas) replies)
    (hk : k.Honest) (htakes : k.TakesAll (m.saved (selectRecords (some tracked) m.maps.areas)) r)
    (htable : r.table = .initial)
    (hfree : ∀ a ∈ selectRecords (some tracked) m.maps.areas, ∀ x ∈ a.range,
      r.space.protAt x = none)
    (hready : (⟨f.content, reads⟩ : InFile).Ready) :
    ∃ r', restoreMemoryForImage k ⟨some f.content, reads⟩ r = .ok (0, st, r') ∧
      (∀ a ∈ selectRecords (some tracked) m.maps.areas, ∀ x ∈ a.range,
        r'.space.bytes x = m.bytes x ∧
          ∃ b ∈ m.maps.areas, x ∈ b.range ∧ r'.space.protAt x = some b.prot) ∧
      (∀ x, (∀ a ∈ selectRecords (some tracked) m.maps.areas, x ∉ a.range) →
        r'.space.bytes x = r.space.bytes x ∧ r'.space.protAt x = r.space.protAt x) ∧
      ((selectRecords (some tracked) m.maps.areas).length < maxTrack →
        mmappedList r'.table = (selectRecords (some tracked) m.maps.areas).map regionOf) := by
  have hcontent := writeImage_content hwrite hsucceed.delivers
  have hrecords := selectRecords_restorable hareas htracked hsucceed
  have hmappable := hrecords.mappableAll.each
  have hplaced := hrecords.placed (m := m) hfree
  have hholds := restoredAll_holds hplaced
  rw [hcontent] at hready
  have himg : (⟨some f.content, reads⟩ : Image).content = _ := congrArg some hcontent
  have hrestore := restoreMemoryForImage_spec hk hst (fun a ha => (hrecords.each a ha).fits) hplaced
    htakes himg hready
  refine ⟨_, hrestore, ?_, ?_, ?_⟩
  · intro a ha x hx
    have hra := hrecords.each a ha
    obtain ⟨hbytes, hprot⟩ := hholds.saved (List.Subset.refl _) hmappable ha (hra.pages_eq.symm ▸ hx)
    have hin : x < a.addr + a.size := hra.endAddr ▸ hx.2
    rw [if_pos hin] at hbytes
    refine ⟨hbytes, ?_⟩
    -- a record has the protection of the area it lies in
    rcases mem_selectRecords.1 ha with ⟨b, hb, _, _, t, hfind, rfl⟩
    have hrecord := recordAt_spec (nests_of_find? hfind)
    exact ⟨b, hb, hrecord.range_subset hx, by rw [hprot, hrecord.prot]⟩
  · intro x hx
    have hout : ∀ e ∈ m.saved (selectRecords (some tracked) m.maps.areas), x ∉ e.area.pages := by
      intro e he
      rcases Mem.mem_saved.1 he with ⟨a, ha, rfl⟩
      rw [(hrecords.each a ha).pages_eq]
      exact hx a ha
    exact ⟨(hholds.outside x hout).1, hholds.protAt_outside hout⟩
  · exact fun hlen => mmappedList_saved hmappable hlen htable

/-! ## A heap of two pages -/

/-- The heap `mergedHeap`, tracked as one region, comes back byte by byte. -/
theorem restore_checkpoint_mergedHeap :
    ∃ f reads r', writeImage .blank ⟨mergedHeapMaps, fun x => UInt8.ofNat x⟩ [⟨0x10000, 0x2000⟩]
        ((imageRequests [mergedHeap]).map .moved) = .ok f ∧
      restoreMemoryForImage .plain ⟨some f.content, reads⟩ emptyRestorer = .ok (0, .blank, r') ∧
      (∀ x ∈ mergedHeap.range, r'.space.bytes x = UInt8.ofNat x) ∧
      mmappedList r'.table = [⟨0x10000, 0x2000⟩] := by
  let m : Mem := ⟨mergedHeapMaps, fun x => UInt8.ofNat x⟩
  let tracked : List MmapInfo := [⟨0x10000, 0x2000⟩]
  let replies : List (Reply Errno) := (imageRequests [mergedHeap]).map .moved
  have hrecords : selectRecords (some tracked) m.maps.areas = [mergedHeap] := by decide
  have hdelivers : Delivers retries replies (imageRequests [mergedHeap]) :=
    delivers_moved retries _
  have hsucceed : WritesSucceed m (selectRecords (some tracked) m.maps.areas) replies := by
    rw [hrecords]
    refine ⟨hdelivers, fun a ha x hlo hhi => ?_⟩
    rw [List.mem_singleton] at ha
    subst ha
    exact ⟨mergedHeap, by simp [m, mergedHeapMaps], hlo, hhi⟩
  rcases writeImage_of_delivers .blank m tracked hsucceed.delivers with ⟨f, hwrite⟩
  have hareas : ∀ a ∈ m.maps.areas, a.addr < a.endAddr := by decide
  rcases @restore_checkpoint m tracked .blank replies (byteReads f.content) f .plain emptyRestorer
    hareas (by decide) ⟨by decide, by decide⟩ hwrite hsucceed Kernel.plain_honest
    (Kernel.plain_takesAll _ _) rfl (fun _ _ _ _ => rfl) (ready_byteReads f.content) with
    ⟨r', hrestore, hinside, _, htracked⟩
  rw [hrecords] at hinside htracked
  exact ⟨f, byteReads f.content, r', hwrite, hrestore,
    fun x hx => (hinside mergedHeap (by simp) x hx).1, htracked (by decide)⟩

end CkptRestart
