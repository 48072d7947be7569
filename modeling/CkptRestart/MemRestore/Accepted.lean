import CkptRestart.MemRestore.Truncation

/-!
# Accepted — which files are restored

An image file has no magic number, no count of its records and no checksum, so any bytes at all may be
given to `main --restore`.

`restoreMemoryForImages_iff` says that the restart returns 0 exactly when each file is a context and
records, in pages that nothing else takes and for which the kernel does what their headers ask for, and
that the memory then holds what these records say and is otherwise as it was.
-/

namespace CkptRestart

open Lib

/-! ## One file -/

/-- Any bytes at all: the loop fails, or they are whole records. -/
theorem restoreLoop_outcome (k : Kernel) (r : Restorer) {f : InFile} (hspare : f.Spare 1) {fuel : Nat}
    (hfuel : f.stream.length < fuel) {buf : List UInt8} (hbuf : buf.length = areaSize) :
    (∃ r' f', restoreLoop k fuel buf r f = some (-1, r', f')) ∨
      ∃ cs : List FileRecord, f.stream = cs.flatMap FileRecord.bytes := by
  induction fuel generalizing r f buf with
  | zero => exact absurd hfuel (Nat.not_lt_zero _)
  | succ fuel ih =>
      by_cases hend : f.stream = []
      · exact .inr ⟨[], hend⟩
      by_cases hheader : f.stream.length < areaSize
      · -- less than a header is left, and no bytes for a region behind it
        left
        rcases hspare.readAll_short hheader with ⟨replies, hread, hspare'⟩
        have hret : toSigned f.stream.length ≠ 0 := by
          rw [toSigned_of_lt (lt_trans hheader (by decide))]
          exact_mod_cast fun hlen => hend (List.length_eq_zero_iff.1 hlen)
        rcases @restoreMemoryRegion_short k (decodeArea (f.stream ++ buf.drop f.stream.length)) r _ _
          (hspare' 0 rfl) id with ⟨r', f', hregion⟩
        exact ⟨r', f', by simp [restoreLoop, hread, hret, hregion]⟩
      have hlong : areaSize ≤ f.stream.length := Nat.le_of_not_lt hheader
      have hlen : (f.stream.take areaSize).length = areaSize := List.length_take_of_le hlong
      rcases restoreLoop_round (k := k) (r := r) hlen (List.take_append_drop areaSize f.stream).symm
        hspare fuel hbuf with ⟨f₁, hstream₁, hspare₁, hround⟩
      by_cases hthere : (decodeArea (f.stream.take areaSize)).size ≤ f₁.stream.length
      · rcases restoreMemoryRegion_whole k r hspare₁ hthere with
          ⟨rc, r₂, f₂, hregion, rfl | ⟨rfl, hstream₂, hspare₂⟩⟩
        · exact .inl ⟨r₂, f₂, by simp [hround, hregion]⟩
        · -- header and bytes make a record, and what is left is shorter
          let c : FileRecord :=
            { header := f.stream.take areaSize
              data := f₁.stream.take (decodeArea (f.stream.take areaSize)).size
              header_length := hlen
              data_length := List.length_take_of_le hthere }
          have hshort : f₂.stream.length < fuel := by
            rw [hstream₂, hstream₁, List.length_drop, List.length_drop]
            have hpos : 0 < areaSize := by decide
            omega
          rcases ih r₂ hspare₂ hshort hlen with ⟨r', f', hloop⟩ | ⟨cs, hcs⟩
          · exact .inl ⟨r', f', by simp [hround, hregion, hloop]⟩
          · refine .inr ⟨c :: cs, ?_⟩
            calc f.stream = f.stream.take areaSize ++ f₁.stream := by
                  rw [hstream₁, List.take_append_drop]
              _ = c.header ++ (c.data ++ f₂.stream) := by rw [hstream₂, List.take_append_drop]
              _ = (c :: cs).flatMap FileRecord.bytes := by
                  rw [hcs, List.flatMap_cons, FileRecord.bytes, List.append_assoc]
      · rcases restoreMemoryRegion_short k r hspare₁ fun _ => Nat.lt_of_not_le hthere with
          ⟨r', f', hregion⟩
        exact .inl ⟨r', f', by simp [hround, hregion]⟩

/-- The reads of an image may be short or interrupted, but none of them fails. -/
def ReadsWhole (img : Image) : Prop :=
  ∀ content, img.content = some content → (⟨content, img.reads⟩ : InFile).Spare 1

theorem ReadsWhole.ready {img : Image} (h : ReadsWhole img) (content : List UInt8)
    (hcontent : img.content = some content) : (⟨content, img.reads⟩ : InFile).Ready :=
  ⟨(h content hcontent).prompt, lt_of_le_of_lt (Nat.le_add_right _ 1) (h content hcontent).enough⟩

theorem restoreMemoryForImage_outcome (k : Kernel) {img : Image} (hreads : ReadsWhole img)
    (r : Restorer) : Rejects k img r ∨ ∃ file : ImageFile, img.content = some file.bytes := by
  cases hcontent : img.content with
  | none => exact .inl (.inr ⟨.blank, r, by simp [restoreMemoryForImage, hcontent]⟩)
  | some content =>
      have hspare := hreads content hcontent
      by_cases hshort : content.length < stateSize
      · -- the assertion fails
        left
        left
        rcases hspare.readAll_short hshort with ⟨replies, hread, _⟩
        have hret : toSigned content.length ≠ stateSize := by
          rw [toSigned_of_lt (lt_trans hshort (by decide))]
          exact_mod_cast Nat.ne_of_lt hshort
        have hread' : readAll ⟨content, img.reads⟩ stateSize =
            some ⟨toSigned content.length, content, ⟨[], replies⟩⟩ := hread
        simp [restoreMemoryForImage, hcontent, hread', hret]
      · have hcontext : (content.take stateSize).length = stateSize :=
          List.length_take_of_le (Nat.le_of_not_lt hshort)
        have hsplit : content = content.take stateSize ++ content.drop stateSize :=
          (List.take_append_drop _ _).symm
        rcases restoreMemoryForImage_context k hcontext (hsplit ▸ hcontent) (hsplit ▸ hspare) r with
          ⟨f, hstream, hspare', hrun⟩
        rcases restoreLoop_outcome k r hspare' hspare'.length_lt
          (List.length_replicate : (List.replicate areaSize (0 : UInt8)).length = areaSize) with
          ⟨r', f', hloop⟩ | ⟨cs, hcs⟩
        · refine .inl (.inr ⟨decodeState (content.take stateSize), r', ?_⟩)
          rw [hrun]
          simp [restoreMemory, hloop]
        · refine .inr ⟨⟨content.take stateSize, cs, hcontext⟩, ?_⟩
          rw [ImageFile.bytes, ← hcs, hstream, ← hsplit]

/-! ## All files -/

/-- The restart does not go on to start the ranks. -/
def GivesUp (k : Kernel) (imgs : List Image) (r : Restorer) : Prop :=
  restoreMemoryForImages k imgs r = .exited ∨
    ∃ sts r', restoreMemoryForImages k imgs r = .ok (-1, sts, r')

theorem restoreMemoryForImages_outcome {k : Kernel} (hk : k.Honest) {imgs : List Image}
    (hreads : ∀ img ∈ imgs, ReadsWhole img) (r : Restorer) :
    GivesUp k imgs r ∨ ∃ files, Contents imgs files := by
  induction imgs generalizing r with
  | nil => exact .inr ⟨[], rfl⟩
  | cons img imgs ih =>
      have hread := hreads img (by simp)
      rcases restoreMemoryForImage_outcome k hread r with
        (hexit | ⟨st, r', hfail⟩) | ⟨file, hcontent⟩
      · exact .inl (.inl (by simp [restoreMemoryForImages, hexit]))
      · exact .inl (.inr ⟨[st], r', by simp [restoreMemoryForImages, hfail]⟩)
      · rcases restoreMemoryForImage_records hk (r := r) hcontent (hread _ hcontent) with
          ⟨hplaced, hfails⟩
        by_cases hone : Placed r.space file.saved ∧ k.TakesAll file.saved r
        · have hrun := hplaced hone.1 hone.2
          rcases ih (fun i hi => hreads i (List.mem_cons_of_mem _ hi)) (restoredAll file.saved r) with
            (hexit | ⟨sts, r', hfail⟩) | ⟨files, hcontents⟩
          · exact .inl (.inl (by simp [restoreMemoryForImages, hrun, hexit]))
          · exact .inl (.inr ⟨file.st :: sts, r', by simp [restoreMemoryForImages, hrun, hfail]⟩)
          · exact .inr ⟨file :: files, by simpa [Contents, hcontent] using hcontents⟩
        · obtain ⟨r', hfail⟩ := hfails hone
          exact .inl (.inr ⟨[file.st], r', by simp [restoreMemoryForImages, hfail]⟩)

/-- Any files at all: the restart returns 0 exactly when each of them is a context and records that ask
for as many bytes as stand behind them, in pages that are free and in no other record, and the kernel
does what is asked for each of them; then exactly these records are mapped and recorded, with their
bytes and protections, and the rest of the memory is as it was.  From all other files the restart gives
up. -/
theorem restoreMemoryForImages_iff {k : Kernel} (hk : k.Honest) {imgs : List Image}
    (hreads : ∀ img ∈ imgs, ReadsWhole img) (r : Restorer) :
    (∀ sts r', restoreMemoryForImages k imgs r = .ok (0, sts, r') ↔
      ∃ files, Contents imgs files ∧ Placed r.space (fileRecords files) ∧
        k.TakesAll (fileRecords files) r ∧ sts = files.map ImageFile.st ∧
        r' = restoredAll (fileRecords files) r ∧ Holds r.space r'.space (fileRecords files)) ∧
    ((∀ files, Contents imgs files →
      ¬ (Placed r.space (fileRecords files) ∧ k.TakesAll (fileRecords files) r)) ↔
        GivesUp k imgs r) := by
  have hready : ∀ img ∈ imgs, ∀ content, img.content = some content →
      (⟨content, img.reads⟩ : InFile).Ready := fun img himg => (hreads img himg).ready
  constructor
  · intro sts r'
    constructor
    · intro hrun
      rcases restoreMemoryForImages_outcome hk hreads r with
        (hexit | ⟨sts', r'', hfail⟩) | ⟨files, hfiles⟩
      · cases hexit.symm.trans hrun
      · cases hfail.symm.trans hrun
      rcases restoreMemoryForImages_records hk hready hfiles (r := r) with ⟨hspec, hfails⟩
      by_cases hall : Placed r.space (fileRecords files) ∧ k.TakesAll (fileRecords files) r
      · obtain ⟨hplaced, htakes⟩ := hall
        obtain ⟨rfl, rfl⟩ : files.map ImageFile.st = sts ∧ restoredAll (fileRecords files) r = r' := by
          simpa using (hspec hplaced htakes).symm.trans hrun
        exact ⟨files, hfiles, hplaced, htakes, rfl, rfl, restoredAll_holds hplaced⟩
      · obtain ⟨sts', r'', hfail⟩ := hfails hall
        cases hfail.symm.trans hrun
    · rintro ⟨files, hfiles, hplaced, htakes, rfl, rfl, _⟩
      exact restoreMemoryForImages_placed hk hready hfiles hplaced htakes
  · constructor
    · intro hno
      rcases restoreMemoryForImages_outcome hk hreads r with hgives | ⟨files, hfiles⟩
      · exact hgives
      · exact .inr ((restoreMemoryForImages_records hk hready hfiles).2 (hno files hfiles))
    · rintro hgives files hfiles ⟨hplaced, htakes⟩
      have hspec := restoreMemoryForImages_placed hk hready hfiles hplaced htakes
      rcases hgives with hexit | ⟨sts, r', hfail⟩
      · cases hexit.symm.trans hspec
      · cases hfail.symm.trans hspec

/-- The image of a page of sevens. -/
def pageOfSevens : Image :=
  let content := imageBytes .blank heapOfSevens [pageAt 0x40000]
  ⟨some content, .moved 1 :: byteReads content⟩

/-- A file that is too short for a context. -/
def scrap : Image := ⟨some [1, 2, 3], .moved 1 :: byteReads [1, 2, 3]⟩

theorem readsWhole_pageOfSevens : ReadsWhole pageOfSevens := by
  rintro _ ⟨⟩
  exact spare_byteReads _

theorem readsWhole_scrap : ReadsWhole scrap := by
  rintro _ ⟨⟩
  exact spare_byteReads _

/-- The page is restored, and with the scrap behind it the restart gives up. -/
theorem restoreMemoryForImages_iff_page :
    (∃ r', restoreMemoryForImages .plain [pageOfSevens] emptyRestorer = .ok (0, [.blank], r') ∧
      ∀ x ∈ (pageAt 0x40000).range, r'.space.bytes x = 7 ∧
        r'.space.protAt x = some (protRead ||| protWrite)) ∧
    GivesUp .plain [pageOfSevens, scrap] emptyRestorer := by
  have hpage : Restorable (pageAt 0x40000) := pageAt_restorable (by decide) (by decide)
  constructor
  · have hfits : ∀ a ∈ [pageAt 0x40000], a.Fits := by simpa using hpage.fits
    obtain ⟨file, hbytes, hstate, hsaved⟩ := exists_imageFile blank_fits heapOfSevens hfits
    have hrecords : fileRecords [file] = heapOfSevens.saved [pageAt 0x40000] := by
      rw [← hsaved, fileRecords_cons]
      exact List.append_nil _
    have hplaced : Placed emptyRestorer.space (fileRecords [file]) := by
      rw [hrecords]
      exact RestorableAll.placed ⟨by simpa using hpage, List.pairwise_singleton _ _⟩
        fun _ _ _ _ => rfl
    have hcontents : Contents [pageOfSevens] [file] := by
      rw [Contents, List.map_singleton, List.map_singleton, hbytes]
      rfl
    have hholds := restoredAll_holds hplaced
    have hrun := ((restoreMemoryForImages_iff Kernel.plain_honest
      (by simpa using readsWhole_pageOfSevens) emptyRestorer).1 [.blank] _).2
      ⟨[file], hcontents, hplaced, Kernel.plain_takesAll _ _, by simp [hstate], rfl, hholds⟩
    refine ⟨_, hrun, fun x hx => ?_⟩
    rw [← hpage.pages_eq] at hx
    have hsub : heapOfSevens.saved [pageAt 0x40000] ⊆ fileRecords [file] := by
      rw [hrecords]
      exact List.Subset.refl _
    obtain ⟨hseven, hprot⟩ := hholds.saved hsub (by simpa using hpage.mappable)
      (List.mem_singleton_self (pageAt 0x40000)) hx
    rw [hpage.pages_eq] at hx
    have hin : x < (pageAt 0x40000).addr + (pageAt 0x40000).size := hx.2
    rw [if_pos hin] at hseven
    exact ⟨hseven, hprot⟩
  · have hreads : ∀ img ∈ [pageOfSevens, scrap], ReadsWhole img := by
      simpa using ⟨readsWhole_pageOfSevens, readsWhole_scrap⟩
    refine (restoreMemoryForImages_iff Kernel.plain_honest hreads emptyRestorer).2.1 ?_
    intro files hfiles _
    -- no file is shorter than a context
    have hmem : some [1, 2, 3] ∈ files.map fun file => some file.bytes := by
      rw [← hfiles]
      exact List.mem_of_mem_tail (List.mem_singleton_self _)
    obtain ⟨file, -, hbytes⟩ := List.mem_map.1 hmem
    have hlen := congrArg List.length (Option.some.inj hbytes)
    rw [ImageFile.bytes, List.length_append, file.context_length] at hlen
    have hsize : ([1, 2, 3] : List UInt8).length < stateSize := by decide
    omega

end CkptRestart
