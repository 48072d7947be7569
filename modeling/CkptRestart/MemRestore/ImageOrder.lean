import CkptRestart.MemRestore.Records

/-!
# ImageOrder — the images of a restart in any order

`restoreMemoryForImages` checks each record against what is mapped so far.  Over a whole list of
images this comes to a condition that does not mention the order: every place is free at first and
no two records overlap (`Placed`).

`restores_iff` says that the restart succeeds exactly under this condition, and
`restoreMemoryForImages_perm` that neither its result nor the memory depend on the order.
-/

namespace CkptRestart

open Lib

/-! ## What the kernel grants -/

/-- For these records, whatever else is mapped: the maps file can be read and lists the mappings, and
`mmap` in free pages and `mprotect` of mapped pages succeed. -/
structure Kernel.Serves (k : Kernel) (records : List Area) : Prop where
  honest : k.Honest
  opens : ∀ s, ∃ l, k.procMaps s = some l
  mmap : ∀ s, ∀ a ∈ records, s.maps.Free a.addr (a.addr + pagesUp a.size) →
    k.refusesMmap s (restoreCall a) = none
  mprotect : ∀ s, ∀ a ∈ records, s.mapped a.addr a.size = true →
    k.refusesMprotect s a.addr a.size a.prot = none

theorem Kernel.plain_serves (records : List Area) : Kernel.plain.Serves records where
  honest := Kernel.plain_honest
  opens := fun s => ⟨listEach s, rfl⟩
  mmap := fun _ _ _ _ => rfl
  mprotect := fun _ _ _ _ => rfl

/-- Records in free pages are granted one after the other. -/
theorem Kernel.Serves.takesAll {k : Kernel} {records : List Area} (hk : k.Serves records)
    {es : List SavedRecord} (hsub : ∀ e ∈ es, e.area ∈ records) {r : Restorer}
    (hplaced : Placed r.space es) : k.TakesAll es r := by
  induction es generalizing r with
  | nil => trivial
  | cons e es ih =>
      obtain ⟨_, hfree, hrest⟩ := placed_cons.1 hplaced
      obtain ⟨he, hes⟩ := List.forall_mem_cons.1 hsub
      refine ⟨⟨hk.opens _, hk.mmap _ _ he hfree, fun hvalid => hk.mprotect _ _ he ?_⟩, ih hes hrest⟩
      exact AddrSpace.mapped_mapFixed r.space (e.area.prot ||| protWrite) hvalid

/-! ## All images -/

/-- The restart of a list of images returns 0. -/
def Restores (k : Kernel) (imgs : List RankImage) (r : Restorer) : Prop :=
  ∃ sts r', restoreMemoryForImages k (imgs.map RankImage.image) r = .ok (0, sts, r')

/-- Well-formed images: they can be read, and each record can be mapped where it was. -/
structure WellFormed (imgs : List RankImage) : Prop where
  readable : ∀ img ∈ imgs, img.Readable
  restorable : ∀ a ∈ allRecords imgs, Restorable a

theorem allRecords_perm {imgs imgs' : List RankImage} (h : imgs.Perm imgs') :
    (allRecords imgs).Perm (allRecords imgs') := h.flatMap_right RankImage.records

theorem allSaved_perm {imgs imgs' : List RankImage} (h : imgs.Perm imgs') :
    (allSaved imgs).Perm (allSaved imgs') := h.flatMap_right RankImage.saved

theorem WellFormed.perm {imgs imgs' : List RankImage} (hperm : imgs.Perm imgs')
    (h : WellFormed imgs) : WellFormed imgs' where
  readable := fun img himg => h.readable img (hperm.mem_iff.2 himg)
  restorable := fun a ha => h.restorable a ((allRecords_perm hperm).mem_iff.2 ha)

theorem Kernel.Serves.perm {k : Kernel} {records records' : List Area} (h : k.Serves records)
    (hperm : records.Perm records') : k.Serves records' where
  honest := h.honest
  opens := h.opens
  mmap := fun s a ha => h.mmap s a (hperm.mem_iff.2 ha)
  mprotect := fun s a ha => h.mprotect s a (hperm.mem_iff.2 ha)

theorem area_mem_allRecords {imgs : List RankImage} {e : SavedRecord} (he : e ∈ allSaved imgs) :
    e.area ∈ allRecords imgs := by
  rcases mem_allSaved.1 he with ⟨img, himg, a, ha, rfl⟩
  exact List.mem_flatMap.2 ⟨img, himg, ha⟩

section Restores

variable {k : Kernel} {imgs : List RankImage} (hk : k.Serves (allRecords imgs))
  (h : WellFormed imgs)
include hk h

/-- The restart succeeds exactly when all places are free and no two records of any images
overlap. -/
theorem restores_iff (r : Restorer) : Restores k imgs r ↔ Placed r.space (allSaved imgs) := by
  constructor
  · rintro ⟨sts, r', hrun⟩
    obtain ⟨files, hcontents, -, hsaved⟩ := exists_imageFiles
      (fun img himg => (h.readable img himg).st) fun a ha => (h.restorable a ha).fits
    by_contra hno
    -- where a record cannot be placed, the restart fails
    obtain ⟨sts', r'', hfail⟩ := (restoreMemoryForImages_records hk.honest (ready_images h.readable)
      hcontents (r := r)).2 fun hplaced => hno (hsaved ▸ hplaced.1)
    cases hrun.symm.trans hfail
  · intro hplaced
    exact ⟨_, _, restoreMemoryForImages_spec hk.honest h.readable
      (fun a ha => (h.restorable a ha).fits) hplaced
      (hk.takesAll (fun e he => area_mem_allRecords he) hplaced)⟩

/-- What a successful restart leaves. -/
theorem WellFormed.restored {r r' : Restorer} {sts : List CkptRestartState}
    (hrun : restoreMemoryForImages k (imgs.map RankImage.image) r = .ok (0, sts, r')) :
    sts = imgs.map RankImage.st ∧ Holds r.space r'.space (allSaved imgs) := by
  have hplaced := (restores_iff hk h r).1 ⟨sts, r', hrun⟩
  have hspec := restoreMemoryForImages_spec hk.honest h.readable
    (fun a ha => (h.restorable a ha).fits) hplaced
    (hk.takesAll (fun e he => area_mem_allRecords he) hplaced)
  obtain ⟨rfl, rfl⟩ : imgs.map RankImage.st = sts ∧ restoredAll (allSaved imgs) r = r' := by
    simpa using hspec.symm.trans hrun
  exact ⟨rfl, restoredAll_holds hplaced⟩

end Restores

/-! ## Two orders -/

/-- The same bytes, mapped with the same protections. -/
def SameMemory (s s' : AddrSpace) : Prop :=
  ∀ x, s.bytes x = s'.bytes x ∧ s.protAt x = s'.protAt x

/-- What is restored depends on the records only. -/
theorem Holds.sameMemory {s s₁ s₂ : AddrSpace} {ds es : List SavedRecord} (hperm : ds.Perm es)
    (h₁ : Holds s s₁ ds) (h₂ : Holds s s₂ es) : SameMemory s₁ s₂ := by
  intro x
  by_cases hin : ∃ e ∈ ds, x ∈ e.area.pages
  · rcases hin with ⟨e, he, hx⟩
    obtain ⟨hbytes₁, hprot₁⟩ := h₁.inside e he x hx
    obtain ⟨hbytes₂, hprot₂⟩ := h₂.inside e (hperm.mem_iff.1 he) x hx
    exact ⟨hbytes₁.trans hbytes₂.symm, hprot₁.trans hprot₂.symm⟩
  · have hout₁ : ∀ e ∈ ds, x ∉ e.area.pages := fun e he hx => hin ⟨e, he, hx⟩
    have hout₂ : ∀ e ∈ es, x ∉ e.area.pages := fun e he => hout₁ e (hperm.mem_iff.2 he)
    exact ⟨(h₁.outside x hout₁).1.trans (h₂.outside x hout₂).1.symm,
      (h₁.protAt_outside hout₁).trans (h₂.protAt_outside hout₂).symm⟩

/-- Whether a restart succeeds does not depend on the order of the images, and neither do the memory
and the context of each rank when it does. -/
theorem restoreMemoryForImages_perm {k : Kernel} {imgs imgs' : List RankImage}
    (hk : k.Serves (allRecords imgs)) (hperm : imgs.Perm imgs') (hwf : WellFormed imgs)
    (r : Restorer) :
    (Restores k imgs r ↔ Restores k imgs' r) ∧
      ∀ sts sts' r₁ r₂,
        restoreMemoryForImages k (imgs.map RankImage.image) r = .ok (0, sts, r₁) →
        restoreMemoryForImages k (imgs'.map RankImage.image) r = .ok (0, sts', r₂) →
          SameMemory r₁.space r₂.space ∧
            sts = imgs.map RankImage.st ∧ sts' = imgs'.map RankImage.st := by
  have hwf' := hwf.perm hperm
  have hk' := hk.perm (allRecords_perm hperm)
  constructor
  · rw [restores_iff hk hwf, restores_iff hk' hwf']
    exact ⟨Placed.perm (allSaved_perm hperm), Placed.perm (allSaved_perm hperm).symm⟩
  · intro sts sts' r₁ r₂ hrun hrun'
    obtain ⟨hsts, hholds⟩ := hwf.restored hk hrun
    obtain ⟨hsts', hholds'⟩ := hwf'.restored hk' hrun'
    exact ⟨hholds.sameMemory (allSaved_perm hperm) hholds', hsts, hsts'⟩

/-- A complete image of some records, read one byte at a time. -/
def imageOf (sp : Nat) (records : List Area) : RankImage :=
  let st := { CkptRestartState.blank with sp := sp }
  let mem : Mem := ⟨mergedHeapMaps, fun x => UInt8.ofNat x⟩
  ⟨st, mem, records, byteReads (imageBytes st mem records)⟩

theorem imageOf_readable {sp : Nat} (hsp : sp < wordSize) (records : List Area) :
    (imageOf sp records).Readable where
  st := ⟨hsp, show (0 : Nat) < wordSize by decide⟩
  reads := ready_byteReads _

/-- The image of a rank with a heap, before and after the one of a rank with a page. -/
theorem restoreMemoryForImages_perm_heap :
    (Restores .plain [imageOf 1 [mergedHeap], imageOf 2 [pageAt 0x40000]] emptyRestorer ↔
        Restores .plain [imageOf 2 [pageAt 0x40000], imageOf 1 [mergedHeap]] emptyRestorer) ∧
      ∀ sts sts' r₁ r₂,
        restoreMemoryForImages .plain
            ([imageOf 1 [mergedHeap], imageOf 2 [pageAt 0x40000]].map RankImage.image)
            emptyRestorer = .ok (0, sts, r₁) →
        restoreMemoryForImages .plain
            ([imageOf 2 [pageAt 0x40000], imageOf 1 [mergedHeap]].map RankImage.image)
            emptyRestorer = .ok (0, sts', r₂) →
          SameMemory r₁.space r₂.space ∧
            sts = [imageOf 1 [mergedHeap], imageOf 2 [pageAt 0x40000]].map RankImage.st ∧
            sts' = [imageOf 2 [pageAt 0x40000], imageOf 1 [mergedHeap]].map RankImage.st := by
  refine restoreMemoryForImages_perm (Kernel.plain_serves _) (List.Perm.swap _ _ _)
    ⟨?_, ?_⟩ emptyRestorer
  · intro img himg
    rcases List.mem_pair.1 himg with rfl | rfl
    · exact imageOf_readable (by decide) _
    · exact imageOf_readable (by decide) _
  · intro a ha
    have hrecords : allRecords [imageOf 1 [mergedHeap], imageOf 2 [pageAt 0x40000]] =
        [mergedHeap, pageAt 0x40000] := rfl
    rw [hrecords] at ha
    rcases List.mem_pair.1 ha with rfl | rfl
    · exact mergedHeap_restorable
    · exact pageAt_restorable (by decide) (by decide)

end CkptRestart
