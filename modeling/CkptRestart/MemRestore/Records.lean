import CkptRestart.MemRestore.Placed

/-!
# Records — restoring the records of an image

The files that a checkpoint writes are files of `Placed`: `exists_imageFile` takes an image apart into
its records, and `restoreMemoryForImages_spec` restores the images of several ranks.

`Mappable` is what a record needs to be mapped at all, and `Restorable` that it is whole pages, so
that nothing but its own bytes comes back.
-/

namespace CkptRestart

open Lib

/-! ## Records that can be mapped -/

/-- A record that can be mapped where it was. -/
structure Mappable (area : Area) : Prop where
  fits : area.Fits
  valid : ValidRange area.addr area.size
  endAddr : area.endAddr = area.addr + area.size

theorem Mappable.anonymous_prot {area : Area} (h : Mappable area) :
    (AddrSpace.anonymous area.prot).prot = area.prot := Nat.mod_eq_of_lt h.fits.prot

/-- Records that can be mapped one after the other: no page is in two of them. -/
structure MappableAll (records : List Area) : Prop where
  each : ∀ a ∈ records, Mappable a
  disjoint : records.Pairwise fun a b => Disjoint a.pages b.pages

/-- Nothing is mapped in the pages of the records. -/
def PagesFree (s : AddrSpace) (records : List Area) : Prop :=
  ∀ a ∈ records, s.maps.Free a.addr (a.addr + pagesUp a.size)

/-- The records as a checkpoint of the memory writes them. -/
def Mem.saved (m : Mem) (records : List Area) : List SavedRecord :=
  records.map fun a => ⟨a, m.read a.addr a.size⟩

theorem Mem.mem_saved {m : Mem} {records : List Area} {e : SavedRecord} :
    e ∈ m.saved records ↔ ∃ a ∈ records, ⟨a, m.read a.addr a.size⟩ = e := List.mem_map

theorem Mem.map_area_saved (m : Mem) (records : List Area) {β : Type} (g : Area → β) :
    ((m.saved records).map fun e => g e.area) = records.map g := by
  rw [Mem.saved, List.map_map]
  rfl

theorem Mem.valid_saved {m : Mem} {records : List Area} (h : ∀ a ∈ records, Mappable a) :
    ∀ e ∈ m.saved records, e.Valid := by
  intro e he
  rcases Mem.mem_saved.1 he with ⟨a, ha, rfl⟩
  exact ⟨(h a ha).valid, m.length_read _ _⟩

theorem MappableAll.placed {m : Mem} {records : List Area} (h : MappableAll records) {s : AddrSpace}
    (hfree : PagesFree s records) : Placed s (m.saved records) where
  valid := Mem.valid_saved h.each
  free := by
    intro e he
    rcases Mem.mem_saved.1 he with ⟨a, ha, rfl⟩
    exact hfree a ha
  disjoint := by
    rw [Mem.saved, List.pairwise_map]
    exact h.disjoint

/-- What is restored of a record: the bytes of the memory it was written from, then zeros, under its
protection. -/
theorem Holds.saved {m : Mem} {records : List Area} {s s' : AddrSpace} {es : List SavedRecord}
    (h : Holds s s' es) (hsub : m.saved records ⊆ es) (hmappable : ∀ a ∈ records, Mappable a) {a : Area}
    (ha : a ∈ records) {x : Nat} (hx : x ∈ a.pages) :
    s'.bytes x = (if x < a.addr + a.size then m.bytes x else 0) ∧ s'.protAt x = some a.prot := by
  obtain ⟨hbytes, hprot⟩ := h.inside _ (hsub (Mem.mem_saved.2 ⟨a, ha, rfl⟩)) x hx
  rw [Nat.mod_eq_of_lt (hmappable a ha).fits.prot] at hprot
  refine ⟨?_, hprot⟩
  rw [Area.mem_pages] at hx
  rw [hbytes]
  split
  · next hdata => exact m.getD_read hx.1 hdata 0
  · next hbehind =>
      have hlen : (m.read a.addr a.size).length ≤ x - a.addr := by
        rw [m.length_read]
        omega
      rw [List.getD_eq_getElem?_getD, List.getElem?_eq_none hlen]
      rfl

/-! ## Records of whole pages -/

/-- A record of whole pages that can be mapped where it was. -/
structure Restorable (area : Area) : Prop where
  fits : area.Fits
  valid : ValidRange area.addr area.size
  whole : PageAligned area.size
  endAddr : area.endAddr = area.addr + area.size

def restoredSeg (area : Area) : Seg Mapping :=
  ⟨area.addr, area.endAddr, AddrSpace.anonymous area.prot⟩

namespace Restorable

variable {area : Area}

theorem mappable (h : Restorable area) : Mappable area := ⟨h.fits, h.valid, h.endAddr⟩

theorem end_eq (h : Restorable area) : area.addr + pagesUp area.size = area.endAddr := by
  rw [pagesUp_of_aligned h.whole, h.endAddr]

theorem addr_lt (h : Restorable area) : area.addr < area.endAddr := by
  rw [← h.end_eq]
  exact h.valid.lt_end

theorem pages_eq (h : Restorable area) : area.pages = area.range := by
  rw [Area.pages, h.end_eq]
  rfl

theorem pagesSeg_eq (h : Restorable area) : pagesSeg area = restoredSeg area := by
  rw [pagesSeg, h.end_eq]
  rfl

end Restorable

theorem uhMmapEnd_regionOf {a : Area} (h : Restorable a) : (regionOf a).uhMmapEnd = a.endAddr := by
  rw [MmapInfo.uhMmapEnd, regionOf, ← h.endAddr]
  exact wrap_of_lt h.fits.endAddr

theorem mergedHeap_restorable : Restorable mergedHeap where
  fits := mergedHeapMaps.fits mergedHeap List.mem_cons_self
  valid := by decide
  whole := by decide
  endAddr := rfl

/-- A page of its own that can be read and written. -/
def pageAt (addr : Nat) : Area where
  addr := addr
  endAddr := addr + 0x1000
  size := 0x1000
  offset := 0
  prot := protRead ||| protWrite
  flags := mapFixed ||| mapPrivate ||| mapAnonymous
  devmajor := 0
  devminor := 0
  inodenum := 0
  properties := 0
  name := []

theorem pageAt_restorable {addr : Nat} (haligned : PageAligned addr)
    (hroom : addr + 0x1000 < wordSize) : Restorable (pageAt addr) := by
  have hzero : 0 < wordSize := by decide
  have hsize : 0x1000 < wordSize := by decide
  have hprot : protRead ||| protWrite < 8 := by decide
  have hflags : mapFixed ||| mapPrivate ||| mapAnonymous < 2 ^ 32 := by decide
  have hwhole : PageAligned 0x1000 := by decide
  have hpages : addr + pagesUp 0x1000 < wordSize := by rwa [pagesUp_of_aligned hwhole]
  have haddr : addr < wordSize := Nat.lt_of_le_of_lt (Nat.le_add_right _ _) hroom
  have hname : ([] : List UInt8).length < 1024 := by decide
  exact ⟨⟨haddr, hroom, hsize, hzero, hprot, hflags, hzero, hzero, hzero, hzero, hname,
    List.not_mem_nil⟩, ⟨haligned, Nat.succ_pos _, hpages⟩, hwhole, rfl⟩

/-- Records that can be mapped one after the other: no two overlap. -/
structure RestorableAll (records : List Area) : Prop where
  each : ∀ a ∈ records, Restorable a
  disjoint : records.Pairwise fun a b => Disjoint a.range b.range

def AllFree (s : AddrSpace) (records : List Area) : Prop :=
  ∀ a ∈ records, s.maps.Free a.addr a.endAddr

/-- Places where nothing is mapped are free. -/
theorem RestorableAll.allFree {records : List Area} (h : RestorableAll records) {s : AddrSpace}
    (hnone : ∀ a ∈ records, ∀ x ∈ a.range, s.protAt x = none) : AllFree s records := by
  intro a ha
  refine (RangeMap.free_iff (h.each a ha).addr_lt).2 fun x hlo hhi => ?_
  exact Option.map_eq_none_iff.1 (hnone a ha x ⟨hlo, hhi⟩)

theorem RestorableAll.mappableAll {records : List Area} (h : RestorableAll records) :
    MappableAll records where
  each := fun a ha => (h.each a ha).mappable
  disjoint := by
    refine h.disjoint.imp_of_mem fun ha hb hab => ?_
    rwa [(h.each _ ha).pages_eq, (h.each _ hb).pages_eq]

theorem RestorableAll.pagesFree {records : List Area} (h : RestorableAll records) {s : AddrSpace}
    (hfree : AllFree s records) : PagesFree s records := by
  intro a ha
  rw [(h.each a ha).end_eq]
  exact hfree a ha

theorem RestorableAll.placed {m : Mem} {records : List Area} (h : RestorableAll records)
    {s : AddrSpace} (hnone : ∀ a ∈ records, ∀ x ∈ a.range, s.protAt x = none) :
    Placed s (m.saved records) :=
  h.mappableAll.placed (h.pagesFree (h.allFree hnone))

/-! ## The files of checkpoints -/

/-- The records of a checkpoint as they stand in the file. -/
theorem exists_fileRecords (m : Mem) {records : List Area} (h : ∀ a ∈ records, a.Fits) :
    ∃ cs : List FileRecord, cs.map FileRecord.saved = m.saved records ∧
      cs.flatMap FileRecord.bytes =
        records.flatMap fun a => encodeArea a ++ m.read a.addr a.size := by
  induction records with
  | nil => exact ⟨[], rfl, rfl⟩
  | cons a records ih =>
      obtain ⟨cs, hsaved, hbytes⟩ := ih fun b hb => h b (List.mem_cons_of_mem _ hb)
      have hdecode := decodeArea_encodeArea (h a (by simp))
      let c : FileRecord :=
        { header := encodeArea a
          data := m.read a.addr a.size
          header_length := length_encodeArea a
          data_length := by rw [hdecode, m.length_read] }
      have hc : c.saved = ⟨a, m.read a.addr a.size⟩ := congrArg (SavedRecord.mk · _) hdecode
      exact ⟨c :: cs, by rw [List.map_cons, hsaved, hc]; rfl,
        by rw [List.flatMap_cons, hbytes]; rfl⟩

/-- The image of a checkpoint is a file of records. -/
theorem exists_imageFile {st : CkptRestartState} (hst : st.Fits) (m : Mem) {records : List Area}
    (h : ∀ a ∈ records, a.Fits) :
    ∃ file : ImageFile, file.bytes = imageBytes st m records ∧ file.st = st ∧
      file.saved = m.saved records := by
  obtain ⟨cs, hsaved, hbytes⟩ := exists_fileRecords m h
  exact ⟨⟨encodeState st, cs, length_encodeState st⟩, congrArg (encodeState st ++ ·) hbytes,
    decodeState_encodeState hst, hsaved⟩

/-- A complete image: what it was written from, and the reads that restore it. -/
structure RankImage where
  st : CkptRestartState
  mem : Mem
  records : List Area
  reads : List (Reply Errno)

namespace RankImage

def bytes (img : RankImage) : List UInt8 := imageBytes img.st img.mem img.records

def image (img : RankImage) : Image := ⟨some img.bytes, img.reads⟩

/-- What restoring the image asks for. -/
def saved (img : RankImage) : List SavedRecord := img.mem.saved img.records

/-- The context is one that can be saved, and the reads get all of the file. -/
structure Readable (img : RankImage) : Prop where
  st : img.st.Fits
  reads : (⟨img.bytes, img.reads⟩ : InFile).Ready

end RankImage

def allRecords (imgs : List RankImage) : List Area := imgs.flatMap RankImage.records

def allSaved (imgs : List RankImage) : List SavedRecord := imgs.flatMap RankImage.saved

theorem mem_allSaved {imgs : List RankImage} {e : SavedRecord} :
    e ∈ allSaved imgs ↔
      ∃ img ∈ imgs, ∃ a ∈ img.records, ⟨a, img.mem.read a.addr a.size⟩ = e := by
  simp [allSaved, RankImage.saved, Mem.mem_saved]

theorem map_area_allSaved (imgs : List RankImage) {β : Type} (g : Area → β) :
    ((allSaved imgs).map fun e => g e.area) = (allRecords imgs).map g := by
  rw [allSaved, allRecords, List.map_flatMap, List.map_flatMap]
  exact List.flatMap_congr fun img _ => img.mem.map_area_saved img.records g

/-- Records that can be mapped one after the other, whichever images they are in. -/
theorem MappableAll.placedAll {imgs : List RankImage} (h : MappableAll (allRecords imgs))
    {s : AddrSpace} (hfree : PagesFree s (allRecords imgs)) : Placed s (allSaved imgs) where
  valid := by
    intro e he
    rcases mem_allSaved.1 he with ⟨img, himg, a, ha, rfl⟩
    exact ⟨(h.each a (List.mem_flatMap.2 ⟨img, himg, ha⟩)).valid, img.mem.length_read _ _⟩
  free := by
    intro e he
    rcases mem_allSaved.1 he with ⟨img, himg, a, ha, rfl⟩
    exact hfree a (List.mem_flatMap.2 ⟨img, himg, ha⟩)
  disjoint := by
    have hdis := h.disjoint
    have harea := map_area_allSaved imgs id
    rw [← List.map_id (allRecords imgs), ← harea, List.pairwise_map] at hdis
    exact hdis

/-- The images are files of their records. -/
theorem exists_imageFiles {imgs : List RankImage} (hst : ∀ img ∈ imgs, img.st.Fits)
    (hfits : ∀ a ∈ allRecords imgs, a.Fits) :
    ∃ files, Contents (imgs.map RankImage.image) files ∧
      files.map ImageFile.st = imgs.map RankImage.st ∧ fileRecords files = allSaved imgs := by
  induction imgs with
  | nil => exact ⟨[], rfl, rfl, rfl⟩
  | cons img imgs ih =>
      obtain ⟨hst₁, hst₂⟩ := List.forall_mem_cons.1 hst
      have hsplit : ∀ a, a ∈ img.records ∨ a ∈ allRecords imgs → a.Fits := by
        intro a ha
        exact hfits a (by simpa [allRecords] using ha)
      obtain ⟨files, hcontents, hstates, hsaved⟩ := ih hst₂ fun a ha => hsplit a (.inr ha)
      obtain ⟨file, hbytes, hstate, hrecords⟩ :=
        exists_imageFile hst₁ img.mem fun a ha => hsplit a (.inl ha)
      refine ⟨file :: files, ?_, by simp [hstate, hstates], ?_⟩
      · have htail : (imgs.map RankImage.image).map Image.content =
            files.map fun file => some file.bytes := hcontents
        simp only [Contents, List.map_cons, htail, hbytes]
        rfl
      · rw [fileRecords_cons, hrecords, hsaved]
        rfl

theorem ready_images {imgs : List RankImage} (h : ∀ img ∈ imgs, img.Readable) :
    ∀ i ∈ imgs.map RankImage.image, ∀ content, i.content = some content →
      (⟨content, i.reads⟩ : InFile).Ready := by
  intro i hi content hcontent
  rcases List.mem_map.1 hi with ⟨img, himg, rfl⟩
  obtain rfl := Option.some.inj hcontent
  exact (h img himg).reads

/-- Images whose records find their pages free are restored one after the other. -/
theorem restoreMemoryForImages_spec {k : Kernel} (hk : k.Honest) {imgs : List RankImage}
    (hreadable : ∀ img ∈ imgs, img.Readable) (hfits : ∀ a ∈ allRecords imgs, a.Fits)
    {r : Restorer} (hplaced : Placed r.space (allSaved imgs)) (htakes : k.TakesAll (allSaved imgs) r) :
    restoreMemoryForImages k (imgs.map RankImage.image) r =
      .ok (0, imgs.map RankImage.st, restoredAll (allSaved imgs) r) := by
  obtain ⟨files, hcontents, hstates, hsaved⟩ :=
    exists_imageFiles (fun img himg => (hreadable img himg).st) hfits
  rw [← hsaved] at hplaced htakes ⊢
  rw [← hstates]
  exact restoreMemoryForImages_placed hk (ready_images hreadable) hcontents hplaced htakes

/-- The image of a checkpoint of the memory `m` is restored. -/
theorem restoreMemoryForImage_spec {k : Kernel} (hk : k.Honest) {st : CkptRestartState}
    (hst : st.Fits) {m : Mem} {records : List Area} (hfits : ∀ a ∈ records, a.Fits)
    {r : Restorer} (hplaced : Placed r.space (m.saved records))
    (htakes : k.TakesAll (m.saved records) r) {img : Image}
    (hcontent : img.content = some (imageBytes st m records))
    (hready : (⟨imageBytes st m records, img.reads⟩ : InFile).Ready) :
    restoreMemoryForImage k img r = .ok (0, st, restoredAll (m.saved records) r) := by
  obtain ⟨file, hbytes, hstate, hsaved⟩ := exists_imageFile hst m hfits
  rw [← hsaved] at hplaced htakes ⊢
  rw [← hbytes] at hcontent hready
  rw [← hstate]
  exact (restoreMemoryForImage_records hk hcontent (InFile.ready_iff_spare.1 hready)).1 hplaced htakes

theorem mmappedList_saved {m : Mem} {records : List Area} (h : ∀ a ∈ records, Mappable a)
    (hlen : records.length < maxTrack) {r : Restorer} (htable : r.table = .initial) :
    mmappedList (restoredAll (m.saved records) r).table = records.map regionOf := by
  rw [mmappedList_restoredAll (Mem.valid_saved h) (by simpa [Mem.saved] using hlen) htable,
    m.map_area_saved]

end CkptRestart
