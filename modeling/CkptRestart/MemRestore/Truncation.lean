import CkptRestart.MemRestore.Records

/-!
# Truncation — images that are cut off

An image has no count of its records and no end mark: `restoreMemory` stops at the end of the file.
A prefix that ends right after the context or after a whole record is a complete image itself, of
the first records.

`restoreMemoryForImage_truncated` says that every other prefix is rejected, wherever it is cut, whatever
is mapped, and however the reads are split.
-/

namespace CkptRestart

open Lib

/-! ## A record of which bytes are missing -/

/-- A record that the rest of the file is too short for is rejected. -/
theorem restoreMemoryRegion_short (k : Kernel) {area : Area} (r : Restorer) {f : InFile} {n : Nat}
    (hspare : f.Spare n) (hshort : 0 < area.size → f.stream.length < area.size) :
    ∃ r' f', restoreMemoryRegion k area r f = some (-1, r', f') := by
  rcases restoreMemoryRegion_cases k area r f with ⟨_, r', hfail⟩ | ⟨_, _, hvalid, hres⟩
  · exact ⟨r', f, hfail⟩
  · -- what can be mapped has at least one byte
    have henough := hspare.enough
    rcases drive_prompt_short retries hspare.prompt (hshort hvalid.pos) (by omega) with
      ⟨p, hp, _, hstop, _⟩
    exact ⟨_, _, by rw [hres, hp, Option.map_some, recordResult, if_pos hstop]⟩

/-- A record whose bytes are there fails, or leaves the file after them. -/
theorem restoreMemoryRegion_whole (k : Kernel) {area : Area} (r : Restorer) {f : InFile} {n : Nat}
    (hspare : f.Spare n) (hthere : area.size ≤ f.stream.length) :
    ∃ rc r' f', restoreMemoryRegion k area r f = some (rc, r', f') ∧
      (rc = -1 ∨ rc = 0 ∧ f'.stream = f.stream.drop area.size ∧ f'.Spare n) := by
  rcases restoreMemoryRegion_cases k area r f with ⟨_, r', hfail⟩ | ⟨hover, hgrants, _, _⟩
  · exact ⟨-1, r', f, hfail, Or.inl rfl⟩
  · rcases restoreMemoryRegion_full k r hspare hthere hover hgrants with
      ⟨hvalid, f', hres, hrest, hspare'⟩
    refine ⟨_, _, f', hres, ?_⟩
    rw [(protectRecord_filled k area r hvalid _).2]
    split
    · exact Or.inr ⟨rfl, hrest, hspare'⟩
    · exact Or.inl rfl

/-! ## The records that are cut off -/

/-- A list that begins with a block, or lies inside it. -/
theorem prefix_append_cases {α : Type} {pre front rest : List α} (h : pre <+: front ++ rest) :
    pre.length < front.length ∨ ∃ pre', pre = front ++ pre' ∧ pre' <+: rest := by
  by_cases hlen : pre.length < front.length
  · exact Or.inl hlen
  · right
    have hfront : front <+: pre :=
      List.prefix_of_prefix_length_le (List.prefix_append front rest) h (Nat.le_of_not_lt hlen)
    rcases hfront with ⟨pre', rfl⟩
    exact ⟨pre', rfl, (List.prefix_append_right_inj front).1 h⟩

/-- The loop rejects a stream of records that ends inside one of them. -/
theorem restoreLoop_truncated (k : Kernel) {m : Mem} {records : List Area}
    (hfits : ∀ a ∈ records, a.Fits) (r : Restorer) {f : InFile}
    (hpre : f.stream <+: records.flatMap fun a => encodeArea a ++ m.read a.addr a.size)
    (hcut : ∀ j, f.stream ≠ (records.take j).flatMap fun a => encodeArea a ++ m.read a.addr a.size)
    (hspare : f.Spare 1) {fuel : Nat} (hfuel : f.stream.length < fuel) {buf : List UInt8}
    (hbuf : buf.length = areaSize) :
    ∃ r' f', restoreLoop k fuel buf r f = some (-1, r', f') := by
  induction records generalizing r f fuel buf with
  | nil => exact absurd (by simpa using hpre) (hcut 0)
  | cons a records ih =>
      cases fuel with
      | zero => exact absurd hfuel (Nat.not_lt_zero _)
      | succ fuel =>
          rw [List.flatMap_cons, List.append_assoc] at hpre
          rcases prefix_append_cases hpre with hheader | ⟨pre', hpre', hdata⟩
          · -- the header is cut off; whatever is left in `area`, there are no bytes for it
            have hsome : f.stream.length ≠ 0 := fun hnil => hcut 0 (List.length_eq_zero_iff.1 hnil)
            rw [length_encodeArea] at hheader
            rcases hspare.readAll_short hheader with ⟨replies, hread, hspare'⟩
            have hret : toSigned f.stream.length ≠ 0 := by
              rw [toSigned_of_lt (lt_trans hheader (by decide))]
              exact_mod_cast hsome
            rcases @restoreMemoryRegion_short k
              (decodeArea (f.stream ++ buf.drop f.stream.length)) r _ _ (hspare' 0 rfl) id with
              ⟨r', f', hregion⟩
            exact ⟨r', f', by simp [restoreLoop, hread, hret, hregion]⟩
          · rcases restoreLoop_round (k := k) (r := r) (length_encodeArea a) hpre' hspare fuel hbuf with
              ⟨f₁, hstream₁, hspare₁, hround⟩
            rw [decodeArea_encodeArea (hfits a (by simp))] at hround
            rcases prefix_append_cases hdata with hshort | ⟨pre'', hpre'', hrest⟩
            · -- the bytes of the region are cut off
              rw [m.length_read, ← hstream₁] at hshort
              rcases restoreMemoryRegion_short k r hspare₁ fun _ => hshort with ⟨r', f', hregion⟩
              exact ⟨r', f', by simp [hround, hregion]⟩
            · have hthere : a.size ≤ f₁.stream.length := by
                rw [hstream₁, hpre'', List.length_append, m.length_read]
                exact Nat.le_add_right _ _
              rcases restoreMemoryRegion_whole k r hspare₁ hthere with
                ⟨rc, r₂, f₂, hregion, rfl | ⟨rfl, hstream₂, hspare₂⟩⟩
              · exact ⟨r₂, f₂, by simp [hround, hregion]⟩
              · -- the record is restored, and a later one is cut off
                have hleft : f₂.stream = pre'' := by
                  rw [hstream₂, hstream₁, hpre'', List.drop_left' (m.length_read _ _)]
                have hfuel₂ : f₂.stream.length < fuel := by
                  rw [hpre', hpre'', ← hleft] at hfuel
                  simp only [List.length_append, length_encodeArea] at hfuel
                  have hpos : 0 < areaSize := by decide
                  omega
                have hcut₂ : ∀ j, f₂.stream ≠ (records.take j).flatMap fun a =>
                    encodeArea a ++ m.read a.addr a.size := by
                  intro j hj
                  apply hcut (j + 1)
                  rw [hpre', hpre'', ← hleft, hj, List.take_succ_cons, List.flatMap_cons,
                    List.append_assoc]
                rcases ih (fun b hb => hfits b (List.mem_cons_of_mem _ hb)) r₂ (hleft ▸ hrest)
                  hcut₂ hspare₂ hfuel₂ (length_encodeArea a) with ⟨r', f', hloop⟩
                exact ⟨r', f', by simp [hround, hregion, hloop]⟩

/-! ## Images that are cut off -/

/-- The image is rejected: the assertion fails, or the result is `-1`. -/
def Rejects (k : Kernel) (img : Image) (r : Restorer) : Prop :=
  restoreMemoryForImage k img r = .exited ∨
    ∃ st r', restoreMemoryForImage k img r = .ok (-1, st, r')

/-- What a complete image begins with is rejected, unless it is a complete image itself, of the first
records. -/
theorem restoreMemoryForImage_truncated (k : Kernel) (st : CkptRestartState) {m : Mem}
    {records : List Area} (hfits : ∀ a ∈ records, a.Fits) {pre : List UInt8}
    (hpre : pre <+: imageBytes st m records) (hcut : ∀ j, pre ≠ imageBytes st m (records.take j))
    {reads : List (Reply Errno)} (hspare : (⟨pre, reads⟩ : InFile).Spare 1) (r : Restorer) :
    Rejects k ⟨some pre, reads⟩ r := by
  rcases prefix_append_cases hpre with hcontext | ⟨pre', rfl, hrecords⟩
  · -- the context is cut off
    left
    rw [length_encodeState] at hcontext
    rcases hspare.readAll_short hcontext with ⟨replies, hread, _⟩
    have hret : toSigned pre.length ≠ stateSize := by
      rw [toSigned_of_lt (lt_trans hcontext (by decide))]
      exact_mod_cast Nat.ne_of_lt hcontext
    have hread' : readAll ⟨pre, reads⟩ stateSize = some ⟨toSigned pre.length, pre, ⟨[], replies⟩⟩ :=
      hread
    simp [restoreMemoryForImage, hread', hret]
  · right
    rcases hspare.readAll_front rfl (length_encodeState st) with ⟨f, hread, hstream, hspare'⟩
    have hcut' : ∀ j, f.stream ≠
        (records.take j).flatMap fun a => encodeArea a ++ m.read a.addr a.size :=
      fun j hj => hcut j (by rw [imageBytes, ← hj, hstream])
    have hfuel : f.stream.length < f.replies.length + 1 := by
      have := hspare'.enough
      have := strength_le_length f.replies
      omega
    rcases restoreLoop_truncated k hfits r (hstream ▸ hrecords) hcut' hspare' hfuel
      (List.length_replicate : (List.replicate areaSize (0 : UInt8)).length = areaSize) with
      ⟨r', f', hloop⟩
    have hsize : toSigned stateSize = stateSize := by decide
    refine ⟨decodeState (encodeState st), r', ?_⟩
    simp [restoreMemoryForImage, hread, hsize, restoreMemory, hloop]

/-- The heap `mergedHeap`, filled with sevens. -/
def heapOfSevens : Mem := ⟨mergedHeapMaps, fun _ => 7⟩

/-- Cut off in the header of its only record. -/
theorem restoreMemoryForImage_truncated_inHeader :
    Rejects .plain ⟨some ((imageBytes .blank heapOfSevens [mergedHeap]).take (stateSize + 10)),
      .moved 1 :: byteReads ((imageBytes .blank heapOfSevens [mergedHeap]).take (stateSize + 10))⟩
      emptyRestorer := by
  have hfits : ∀ a ∈ [mergedHeap], a.Fits := mergedHeapMaps.fits
  have hthere : stateSize + 10 ≤ (imageBytes .blank heapOfSevens [mergedHeap]).length := by
    rw [length_imageBytes]
    decide
  refine restoreMemoryForImage_truncated .plain .blank hfits (List.take_prefix _ _)
    (fun j hj => ?_) (spare_byteReads _) emptyRestorer
  have hlen := congrArg List.length hj
  rw [List.length_take_of_le hthere, length_imageBytes] at hlen
  cases j with
  | zero => exact absurd hlen (by decide)
  | succ j =>
      rw [List.take_succ_cons, List.take_nil] at hlen
      exact absurd hlen (by decide)

/-- Cut off after the context, the image of a heap counts as restored. -/
theorem not_rejects_contextOnly :
    imageBytes .blank heapOfSevens [] <+: imageBytes .blank heapOfSevens [mergedHeap] ∧
      imageBytes .blank heapOfSevens [] ≠ imageBytes .blank heapOfSevens [mergedHeap] ∧
      ¬ Rejects .plain ⟨some (imageBytes .blank heapOfSevens []),
        byteReads (imageBytes .blank heapOfSevens [])⟩ emptyRestorer := by
  refine ⟨by simp [imageBytes], fun hsame => ?_, ?_⟩
  · have hlen := congrArg List.length hsame
    rw [length_imageBytes, length_imageBytes] at hlen
    exact absurd hlen (by decide)
  · have hcontent : (⟨some (imageBytes .blank heapOfSevens []),
        byteReads (imageBytes .blank heapOfSevens [])⟩ : Image).content =
          some (imageBytes .blank heapOfSevens []) := by
      simp only
    have hres := @restoreMemoryForImage_spec _ Kernel.plain_honest _ blank_fits _ [] (by simp)
      emptyRestorer (placed_nil _) trivial _ hcontent (by simpa only using ready_byteReads _)
    rintro (hexit | ⟨st, r', hfail⟩)
    · simp [hres] at hexit
    · simp [hres] at hfail

end CkptRestart
