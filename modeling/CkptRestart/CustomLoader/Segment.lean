import CkptRestart.CustomLoader

/-!
# Segment — what mapping one segment comes to

A segment is mapped from the file, cleared behind what the file has to the end of the page, and mapped
as zeros from there on.  `mapElfInterpreterLoadSegment_result` says that if no mapping fails the
segment is in its own pages, nothing else has changed, and where the base is for the next one.
-/

namespace CkptRestart

open Lib

/-! ## The image -/

/-- Of the 4 GB of a rank, ld.so has the last quarter. -/
def ldSoWindow : Nat := 2 ^ 30

/-- A segment is in memory as its header describes it, at a base. -/
structure SegmentAt (s : AddrSpace) (content : List UInt8) (base : Nat) (p : Elf64Phdr) : Prop where
  file : ∀ j < p.pFilesz, content[p.pOffset + j]? = some (s.bytes (base + p.pVaddr + j))
  bss : ∀ j, p.pFilesz ≤ j → j < p.pMemsz → s.bytes (base + p.pVaddr + j) = 0
  prot : 0 < p.pMemsz → ∀ x, roundDown p.pVaddr ≤ x → x < roundUp (p.pVaddr + p.pMemsz) →
    s.protAt (base + x) = some (segmentProt p.pFlags)

/-- No mapping of a range that is not empty has failed. -/
def NoFailure (calls : List MapEvent) : Prop :=
  ∀ e ∈ calls, e.call.length ≠ 0 → e.ret ≠ mapFailed

/-- A segment that passes the assertions, lies in the file and in the window, agrees with its place in
the file modulo the page size, and can be written if there is something to be cleared. -/
structure LoadableSegment (content : List UInt8) (p : Elf64Phdr) : Prop where
  size : p.pFilesz ≤ p.pMemsz
  align : p.pAlign > 1 → p.pVaddr % p.pAlign = p.pOffset % p.pAlign
  -- otherwise the offset of the mapping is not a multiple of the page size, and `mmap` fails
  congruent : 0 < p.pFilesz + pageOffset p.pVaddr → pageOffset p.pOffset = pageOffset p.pVaddr
  inFile : p.pOffset + p.pFilesz ≤ content.length
  writable : p.pFilesz < p.pMemsz → p.pFlags &&& pfW ≠ 0
  window : p.pVaddr + p.pMemsz ≤ ldSoWindow

instance (content : List UInt8) (p : Elf64Phdr) : Decidable (LoadableSegment content p) :=
  decidable_of_iff (p.pFilesz ≤ p.pMemsz ∧
      (p.pAlign > 1 → p.pVaddr % p.pAlign = p.pOffset % p.pAlign) ∧
      (0 < p.pFilesz + pageOffset p.pVaddr → pageOffset p.pOffset = pageOffset p.pVaddr) ∧
      p.pOffset + p.pFilesz ≤ content.length ∧
      (p.pFilesz < p.pMemsz → p.pFlags &&& pfW ≠ 0) ∧ p.pVaddr + p.pMemsz ≤ ldSoWindow)
    ⟨fun ⟨h₁, h₂, h₃, h₄, h₅, h₆⟩ => ⟨h₁, h₂, h₃, h₄, h₅, h₆⟩,
      fun ⟨h₁, h₂, h₃, h₄, h₅, h₆⟩ => ⟨h₁, h₂, h₃, h₄, h₅, h₆⟩⟩

/-! ## One call -/

section Calls

variable {env : LoaderEnv} {content : List UInt8}

/-- Only a file whose path is libc's is patched. -/
theorem patch_eq_none (t : MmapTable) (c : MmapCall) {w : MmapWorld}
    (hlink : checkLibrary w.link libcName = none) : (mmapWrapper t c w).patch = none := by
  unfold mmapWrapper
  split
  · rfl
  split
  · simp [hlink]
  · rfl

theorem LoaderEnv.link_mmap (n : Nat) (s : AddrSpace) (c : MmapCall)
    (hlink : checkLibrary env.link libcName = none) :
    checkLibrary (env.mmap content n s c).1.link libcName = none := by
  unfold LoaderEnv.mmap
  split_ifs
  · rfl
  · rw [Kernel.link_mmapFixed]
    rfl
  · rw [Kernel.link_mmapFile]
    exact hlink

/-- The memory after a mapping that is made. -/
def mapSpace (content : List UInt8) (s : AddrSpace) (c : MmapCall)
    (h : ValidRange c.addr c.length) : AddrSpace :=
  if c.flags &&& mapAnonymous ≠ 0 then s.mapFixed c.addr c.length c.prot h
  else (s.mapFixed c.addr c.length c.prot h).store c.addr
    (slice content c.offset (pagesUp c.length))

/-- A call that is not for libc fails, and may have removed what was in its place, or maps its range. -/
theorem Loader.mmapWrapper_cases (hlink : checkLibrary env.link libcName = none) (c : MmapCall)
    (ld : Loader) :
    ∃ ret table space, ld.mmapWrapper env content c = .ok (ret, { ld with
        space := space
        table := table
        calls := ld.calls ++ [⟨ld.header, c, ret⟩] }) ∧
      ((ret = mapFailed ∧
          AddrSpace.Partly (fun _ => none) ld.space c.addr c.length space ∧
          ¬ (c.offset &&& mmapOffMask = 0 ∧
            (env.kernels ld.calls.length).Grants ld.space c)) ∨
        (ret = c.addr ∧ ∃ h : ValidRange c.addr c.length, space = mapSpace content ld.space c h)) := by
  let answer := env.mmap content ld.calls.length ld.space c
  let out := CkptRestart.mmapWrapper ld.table c answer.1
  have hpatch : out.patch = none :=
    patch_eq_none ld.table c (LoaderEnv.link_mmap ld.calls.length ld.space c hlink)
  refine ⟨out.ret, out.table, answer.2, ?_, ?_⟩
  · simp only [Loader.mmapWrapper, hpatch, out, answer]
    rfl
  · rcases LoaderEnv.mmap_cases env content ld.calls.length ld.space c with
      ⟨hfailed, hspace, hnot⟩ | ⟨hoff, hret, _, h, hspace⟩
    · exact .inl ⟨mmapWrapper_ret_of_failed ld.table c hfailed, hspace, hnot⟩
    · refine .inr ⟨?_, h, hspace⟩
      have hne : answer.1.ret ≠ mapFailed := by
        rw [hret]
        exact h.ne_mapFailed
      simp only [out, CkptRestart.mmapWrapper, hoff, ne_eq, not_true_eq_false, if_false, if_pos hne]
      exact hret

theorem protAt_mapSpace (s : AddrSpace) {c : MmapCall} (h : ValidRange c.addr c.length)
    (hprot : c.prot < 8) (x : Nat) :
    (mapSpace content s c h).protAt x =
      if c.addr ≤ x ∧ x < c.addr + pagesUp c.length then some c.prot else s.protAt x := by
  rw [← AddrSpace.protAt_mapFixed s h hprot x]
  unfold mapSpace
  split <;> rfl

/-- The bytes of an anonymous mapping. -/
theorem bytes_mapSpace_anonymous (s : AddrSpace) {c : MmapCall} (h : ValidRange c.addr c.length)
    (hflags : c.flags &&& mapAnonymous ≠ 0) (x : Nat) :
    (mapSpace content s c h).bytes x =
      if c.addr ≤ x ∧ x < c.addr + pagesUp c.length then 0 else s.bytes x := by
  rw [mapSpace, if_pos hflags, AddrSpace.bytes_mapFixed]

/-- The bytes of a file that is mapped. -/
theorem bytes_mapSpace_file (s : AddrSpace) {c : MmapCall} (h : ValidRange c.addr c.length)
    (hflags : c.flags &&& mapAnonymous = 0) {i : Nat} (hi : i < pagesUp c.length)
    (hin : c.offset + i < content.length) :
    content[c.offset + i]? = some ((mapSpace content s c h).bytes (c.addr + i)) := by
  have hlen : i < (slice content c.offset (pagesUp c.length)).length := by
    rw [slice, List.length_take, List.length_drop]
    omega
  have hx : c.addr ≤ c.addr + i ∧ c.addr + i < c.addr + (slice content c.offset
      (pagesUp c.length)).length := ⟨Nat.le_add_right _ _, Nat.add_lt_add_left hlen _⟩
  have hbyte : (mapSpace content s c h).bytes (c.addr + i) =
      (slice content c.offset (pagesUp c.length)).getD i 0 := by
    rw [mapSpace, if_neg (by simpa using hflags)]
    show (if _ then _ else _) = _
    rw [if_pos hx, Nat.add_sub_cancel_left]
  rw [hbyte, List.getD_eq_getElem?_getD, List.getElem?_eq_getElem hlen,
    List.getElem?_eq_getElem hin]
  simp [slice]

theorem bytes_mapSpace_outside (s : AddrSpace) {c : MmapCall} (h : ValidRange c.addr c.length)
    {x : Nat} (hx : ¬ (c.addr ≤ x ∧ x < c.addr + pagesUp c.length)) :
    (mapSpace content s c h).bytes x = s.bytes x := by
  unfold mapSpace
  split
  · exact if_neg hx
  · have hlen : (slice content c.offset (pagesUp c.length)).length ≤ pagesUp c.length :=
      List.length_take_le _ _
    rw [AddrSpace.bytes_store_of_not_mem]
    · exact if_neg hx
    · omega

end Calls

/-! ## One segment -/

theorem segmentProt_lt (pFlags : Nat) : segmentProt pFlags < 8 := by
  unfold segmentProt
  split_ifs <;> decide

theorem segmentProt_write {pFlags : Nat} (h : pFlags &&& pfW ≠ 0) :
    segmentProt pFlags &&& protWrite ≠ 0 := by
  rw [segmentProt, if_pos h]
  split_ifs <;> decide

theorem AddrSpace.clear_of_writable {s : AddrSpace} {addr n prot : Nat}
    (hprot : prot &&& protWrite ≠ 0)
    (h : ∀ x, addr ≤ x → x < addr + n → s.protAt x = some prot) :
    s.clear addr n = .ok (s.store addr (List.replicate n 0)) := by
  apply if_pos
  apply List.all_eq_true.2
  intro i hi
  have hlt := List.mem_range.1 hi
  simp [AddrSpace.writable, h (addr + i) (Nat.le_add_right _ _) (by omega), hprot]

theorem AddrSpace.bytes_store_zeros (s : AddrSpace) (addr n x : Nat) :
    (s.store addr (List.replicate n 0)).bytes x =
      if addr ≤ x ∧ x < addr + n then 0 else s.bytes x := by
  unfold AddrSpace.store
  rw [List.length_replicate]
  dsimp only
  split
  · simp [List.getD_eq_getElem?_getD, List.getElem?_replicate]
    split <;> rfl
  · rfl

/-- The base for the segments after the first, at which `rc2` of the last mapping goes. -/
def lastMapping (base : Nat) (p : Elf64Phdr) : Nat :=
  if roundUp (p.pVaddr + p.pFilesz) < roundUp (p.pVaddr + p.pMemsz) then
    base + roundUp (p.pVaddr + p.pFilesz)
  else base + roundDown p.pVaddr

section Segment

variable {content : List UInt8} {p : Elf64Phdr} {b : Nat}

/-- A base whose window of addresses does not leave the lower half of the address space. -/
structure Base (b : Nat) : Prop where
  aligned : PageAligned b
  le : b ≤ 2 ^ 63

theorem LoadableSegment.vaddr_le (h : LoadableSegment content p) : p.pVaddr ≤ ldSoWindow :=
  Nat.le_of_add_right_le h.window

theorem LoadableSegment.fileEnd_le (h : LoadableSegment content p) :
    p.pVaddr + p.pFilesz ≤ ldSoWindow :=
  le_trans (Nat.add_le_add_left h.size _) h.window

theorem roundUp_window {n : Nat} (h : n ≤ ldSoWindow) : roundUp n = pagesUp n := by
  apply roundUp_of_le
  unfold ldSoWindow pageSize wordSize at *
  omega

theorem fileCall_addr (h : LoadableSegment content p) (hb : Base b) (fd : Int) :
    (fileCall fd b p).addr = b + roundDown p.pVaddr := by
  have hv := h.vaddr_le
  have hble := hb.le
  -- the window is below `INT_MAX`, so the `int` keeps the address
  have hint : toInt32 p.pVaddr = p.pVaddr := by
    unfold ldSoWindow at hv
    rw [toInt32, Int.bmod_eq_of_le (by omega) (by omega)]
  have hsum : toUnsigned ((b : Int) + toInt32 p.pVaddr) = b + p.pVaddr := by
    rw [hint, ← Int.natCast_add, toUnsigned_natCast]
    unfold ldSoWindow at hv
    unfold wordSize
    omega
  rw [fileCall, hsum, roundDown_add hb.aligned]

theorem fileCall_length (h : LoadableSegment content p) (fd : Int) :
    (fileCall fd b p).length = pagesUp (p.pFilesz + pageOffset p.pVaddr) := by
  apply roundUp_of_le
  have hfs := h.fileEnd_le
  have hoff : pageOffset p.pVaddr < pageSize := Nat.mod_lt _ (by decide)
  unfold ldSoWindow pageSize wordSize at *
  omega

/-- The pages of the file end where the last byte of the file part has its page. -/
theorem fileCall_end (h : LoadableSegment content p) (hb : Base b) (fd : Int) :
    (fileCall fd b p).addr + pagesUp (fileCall fd b p).length =
      b + pagesUp (p.pVaddr + p.pFilesz) := by
  rw [fileCall_addr h hb, fileCall_length h, pagesUp_of_aligned (pageAligned_pagesUp _),
    Nat.add_assoc, roundDown_add_pagesUp]

theorem fileCall_offset (h : LoadableSegment content p) (hoff : p.pOffset < wordSize)
    (hne : 0 < p.pFilesz + pageOffset p.pVaddr) (fd : Int) :
    (fileCall fd b p).offset + pageOffset p.pVaddr = p.pOffset ∧
      (fileCall fd b p).offset &&& mmapOffMask = 0 := by
  have hmod := h.congruent hne
  have hdown := roundDown_add_pageOffset p.pOffset
  have heq : (fileCall fd b p).offset = roundDown p.pOffset := by
    have hdiff : (p.pOffset : Int) - pageOffset p.pVaddr = (roundDown p.pOffset : Nat) := by
      omega
    rw [fileCall, hdiff, toUnsigned_natCast (by omega)]
  -- the wrapper's mask is the offset in a page
  have hmask : mmapOffMask = 2 ^ 12 - 1 := by decide
  refine ⟨by rw [heq]; omega, ?_⟩
  rw [heq, hmask, Nat.and_two_pow_sub_one_eq_mod]
  exact Nat.mod_eq_zero_of_dvd (pageAligned_roundDown _)

theorem fileCall_validRange (h : LoadableSegment content p) (hb : Base b)
    (hne : 0 < p.pFilesz + pageOffset p.pVaddr) (fd : Int) :
    ValidRange (fileCall fd b p).addr (fileCall fd b p).length where
  aligned := by
    rw [fileCall_addr h hb]
    exact Nat.dvd_add hb.aligned (pageAligned_roundDown _)
  pos := by
    rw [fileCall_length h]
    exact lt_of_lt_of_le hne (le_pagesUp _)
  room := by
    rw [fileCall_end h hb]
    have hle := hb.le
    have hfs := h.fileEnd_le
    have hpages := pagesUp_le hfs (by decide : PageAligned ldSoWindow)
    unfold ldSoWindow at hpages
    unfold wordSize
    omega

/-- The memory with the file's part of a segment, cleared to the end of its last page. -/
structure FilePart (s s' : AddrSpace) (content : List UInt8) (b : Nat) (p : Elf64Phdr) : Prop where
  file : ∀ j < p.pFilesz, content[p.pOffset + j]? = some (s'.bytes (b + p.pVaddr + j))
  cleared : ∀ j, p.pFilesz ≤ j → j < p.pMemsz → p.pVaddr + j < pagesUp (p.pVaddr + p.pFilesz) →
    s'.bytes (b + p.pVaddr + j) = 0
  prot : ∀ x, roundDown p.pVaddr ≤ x → x < pagesUp (p.pVaddr + p.pFilesz) →
    s'.protAt (b + x) = some (segmentProt p.pFlags)
  outside : ∀ x, ¬ (b + roundDown p.pVaddr ≤ x ∧ x < b + pagesUp (p.pVaddr + p.pFilesz)) →
    s'.protAt x = s.protAt x ∧ s'.bytes x = s.bytes x

theorem Base.wrap_add (hb : Base b) {n : Nat} (hn : n ≤ ldSoWindow) : wrap (b + n) = b + n := by
  apply wrap_of_lt
  have hle := hb.le
  unfold ldSoWindow at hn
  unfold wordSize
  omega

theorem Base.roundUp_add (hb : Base b) {n : Nat} (hn : n ≤ ldSoWindow) :
    roundUp (b + n) = b + roundUp n := by
  have hle := hb.le
  rw [roundUp_window hn, ← pagesUp_add hb.aligned]
  apply roundUp_of_le
  unfold ldSoWindow at hn
  unfold pageSize wordSize
  omega

theorem pos_of_validRange (h : LoadableSegment content p) {fd : Int}
    (hvalid : ValidRange (fileCall fd b p).addr (fileCall fd b p).length) :
    0 < p.pFilesz + pageOffset p.pVaddr := by
  have hpos := hvalid.pos
  rw [fileCall_length h] at hpos
  by_contra hzero
  rw [Nat.eq_zero_of_not_pos hzero] at hpos
  exact absurd hpos (by decide)

theorem protAt_fileCall (h : LoadableSegment content p) (hb : Base b) (s : AddrSpace) {fd : Int}
    (hvalid : ValidRange (fileCall fd b p).addr (fileCall fd b p).length) (x : Nat) :
    (mapSpace content s (fileCall fd b p) hvalid).protAt x =
      if b + roundDown p.pVaddr ≤ x ∧ x < b + pagesUp (p.pVaddr + p.pFilesz) then
        some (segmentProt p.pFlags) else s.protAt x := by
  rw [protAt_mapSpace s hvalid (segmentProt_lt _), fileCall_end h hb, fileCall_addr h hb]
  rfl

theorem bytes_fileCall (h : LoadableSegment content p) (hb : Base b) (hoff : p.pOffset < wordSize)
    (s : AddrSpace) {fd : Int}
    (hvalid : ValidRange (fileCall fd b p).addr (fileCall fd b p).length) {j : Nat}
    (hj : j < p.pFilesz) :
    content[p.pOffset + j]? =
      some ((mapSpace content s (fileCall fd b p) hvalid).bytes (b + p.pVaddr + j)) := by
  have hdown := roundDown_add_pageOffset p.pVaddr
  have haddr := @fileCall_addr content p b h hb fd
  rcases @fileCall_offset content p b h hoff (pos_of_validRange h hvalid) fd with ⟨hoffset, _⟩
  have hinFile := h.inFile
  have hflags : (fileCall fd b p).flags &&& mapAnonymous = 0 := by
    show (mapPrivate ||| mapFixed) &&& mapAnonymous = 0
    decide
  -- byte `j` of the segment is byte `pageOffset p.pVaddr + j` of the mapping
  have hi : pageOffset p.pVaddr + j < pagesUp (fileCall fd b p).length := by
    rw [fileCall_length h, pagesUp_of_aligned (pageAligned_pagesUp _)]
    exact lt_of_lt_of_le (by omega) (le_pagesUp _)
  have hbyte := @bytes_mapSpace_file content s (fileCall fd b p) hvalid hflags
    (pageOffset p.pVaddr + j) hi (by omega)
  have hfrom : (fileCall fd b p).offset + (pageOffset p.pVaddr + j) = p.pOffset + j := by omega
  have hto : (fileCall fd b p).addr + (pageOffset p.pVaddr + j) = b + p.pVaddr + j := by omega
  rwa [hfrom, hto] at hbyte

theorem outside_fileCall (h : LoadableSegment content p) (hb : Base b) (s : AddrSpace) {fd : Int}
    (hvalid : ValidRange (fileCall fd b p).addr (fileCall fd b p).length) {x : Nat}
    (hx : ¬ (b + roundDown p.pVaddr ≤ x ∧ x < b + pagesUp (p.pVaddr + p.pFilesz))) :
    (mapSpace content s (fileCall fd b p) hvalid).protAt x = s.protAt x ∧
      (mapSpace content s (fileCall fd b p) hvalid).bytes x = s.bytes x := by
  refine ⟨(protAt_fileCall h hb s hvalid x).trans (if_neg hx), ?_⟩
  apply bytes_mapSpace_outside
  rwa [fileCall_end h hb, fileCall_addr h hb]

/-- The `memset` reaches from the end of what the file has to the end of its page. -/
theorem clearBss_eq (h : LoadableSegment content p) (hb : Base b) (hbss : p.pFilesz < p.pMemsz)
    {ld : Loader} (hprot : ∀ x, b + p.pVaddr + p.pFilesz ≤ x →
      x < b + pagesUp (p.pVaddr + p.pFilesz) → ld.space.protAt x = some (segmentProt p.pFlags)) :
    ld.clearBss p (wrap (b + p.pVaddr + p.pFilesz)) = .ok { ld with
      space := ld.space.store (b + p.pVaddr + p.pFilesz)
        (List.replicate (pagesUp (p.pVaddr + p.pFilesz) - (p.pVaddr + p.pFilesz)) 0) } := by
  have hstart : wrap (b + p.pVaddr + p.pFilesz) = b + p.pVaddr + p.pFilesz := by
    rw [Nat.add_assoc, hb.wrap_add h.fileEnd_le]
  have hup : roundUp (b + p.pVaddr + p.pFilesz) = b + pagesUp (p.pVaddr + p.pFilesz) := by
    rw [Nat.add_assoc, hb.roundUp_add h.fileEnd_le, roundUp_window h.fileEnd_le]
  have hle := le_pagesUp (p.pVaddr + p.pFilesz)
  have hpages := pagesUp_le h.fileEnd_le (by decide : PageAligned ldSoWindow)
  -- the difference of the two pointers is not negative
  have hcount : toUnsigned (((b + pagesUp (p.pVaddr + p.pFilesz) : Nat) : Int) -
      (b + p.pVaddr + p.pFilesz : Nat)) =
      pagesUp (p.pVaddr + p.pFilesz) - (p.pVaddr + p.pFilesz) := by
    have hdiff : ((b + pagesUp (p.pVaddr + p.pFilesz) : Nat) : Int) -
        (b + p.pVaddr + p.pFilesz : Nat) =
        (pagesUp (p.pVaddr + p.pFilesz) - (p.pVaddr + p.pFilesz) : Nat) := by
      omega
    rw [hdiff, toUnsigned_natCast]
    unfold ldSoWindow at hpages
    unfold wordSize
    omega
  rw [Loader.clearBss, if_pos hbss, hstart, hup, hcount,
    AddrSpace.clear_of_writable (segmentProt_write (h.writable hbss))]
  · rfl
  · intro x hlo hhi
    exact hprot x hlo (by omega)

/-- The file's part of a segment after its mapping and the `memset`. -/
theorem clearBss_filePart (h : LoadableSegment content p) (hb : Base b)
    (hoff : p.pOffset < wordSize) {s : AddrSpace} {fd : Int}
    (hvalid : ValidRange (fileCall fd b p).addr (fileCall fd b p).length) {ld : Loader}
    (hspace : ld.space = mapSpace content s (fileCall fd b p) hvalid) :
    ∃ s', ld.clearBss p (wrap (b + p.pVaddr + p.pFilesz)) = .ok { ld with space := s' } ∧
      FilePart s s' content b p := by
  have hdown := roundDown_add_pageOffset p.pVaddr
  have hle := le_pagesUp (p.pVaddr + p.pFilesz)
  have hprot := protAt_fileCall h hb s hvalid
  have hfile := fun j => @bytes_fileCall content p b h hb hoff s fd hvalid j
  have houtside := fun x => @outside_fileCall content p b h hb s fd hvalid x
  rw [← hspace] at hprot hfile houtside
  by_cases hbss : p.pFilesz < p.pMemsz
  -- the bytes behind the file's part are cleared in the pages that were just mapped
  · refine ⟨_, clearBss_eq h hb hbss fun x hlo hhi => ?_, ?_, ?_, ?_, ?_⟩
    · exact (hprot x).trans (if_pos (by omega))
    · intro j hj
      rw [AddrSpace.bytes_store_zeros, if_neg (by omega), hfile j hj]
    · intro j hlo hhi hpage
      rw [AddrSpace.bytes_store_zeros, if_pos (by omega)]
    · intro x hlo hhi
      exact (hprot _).trans (if_pos (by omega))
    · intro x hx
      refine ⟨(houtside x hx).1, ?_⟩
      rw [AddrSpace.bytes_store_zeros, if_neg (by omega), (houtside x hx).2]
  · refine ⟨ld.space, ?_, hfile, ?_, ?_, houtside⟩
    · rw [Loader.clearBss, if_neg hbss]
      rfl
    · intro j hlo hhi
      omega
    · intro x hlo hhi
      exact (hprot _).trans (if_pos (by omega))

/-- With no pages behind the file's part, that is the segment. -/
theorem FilePart.segmentAt {s s' : AddrSpace} (hfile : FilePart s s' content b p)
    (h : LoadableSegment content p)
    (hle : pagesUp (p.pVaddr + p.pMemsz) ≤ pagesUp (p.pVaddr + p.pFilesz)) :
    SegmentAt s' content b p where
  file := hfile.file
  bss := by
    intro j hlo hhi
    apply hfile.cleared j hlo hhi
    have := le_pagesUp (p.pVaddr + p.pMemsz)
    omega
  prot := by
    intro _ x hlo hhi
    rw [roundUp_window h.window] at hhi
    exact hfile.prot x hlo (lt_of_lt_of_le hhi hle)

theorem bssCall_end {lo hi : Nat} (hlo : PageAligned lo) (hhi : PageAligned hi) (hle : lo ≤ hi) :
    (bssCall lo hi p).addr + pagesUp (bssCall lo hi p).length = hi := by
  show lo + pagesUp (hi - lo) = hi
  rw [add_pagesUp_sub hlo hle, pagesUp_of_aligned hhi]

theorem bssCall_flags (lo hi : Nat) (p : Elf64Phdr) :
    (bssCall lo hi p).flags &&& mapAnonymous ≠ 0 := by
  show (mapPrivate ||| mapFixed ||| mapAnonymous) &&& mapAnonymous ≠ 0
  decide

/-- With the pages behind the file's part, the segment is there. -/
theorem FilePart.segmentAt_bss {s s' : AddrSpace} (hfile : FilePart s s' content b p)
    (h : LoadableSegment content p) (hb : Base b)
    (hlt : pagesUp (p.pVaddr + p.pFilesz) < pagesUp (p.pVaddr + p.pMemsz))
    (hvalid : ValidRange (bssCall (b + pagesUp (p.pVaddr + p.pFilesz))
      (b + pagesUp (p.pVaddr + p.pMemsz)) p).addr (bssCall (b + pagesUp (p.pVaddr + p.pFilesz))
      (b + pagesUp (p.pVaddr + p.pMemsz)) p).length) :
    SegmentAt (mapSpace content s' _ hvalid) content b p ∧
      ∀ x, ¬ (b + pagesUp (p.pVaddr + p.pFilesz) ≤ x ∧ x < b + pagesUp (p.pVaddr + p.pMemsz)) →
        (mapSpace content s' _ hvalid).protAt x = s'.protAt x ∧
          (mapSpace content s' _ hvalid).bytes x = s'.bytes x := by
  have hend := @bssCall_end p _ _
    (Nat.dvd_add hb.aligned (pageAligned_pagesUp (p.pVaddr + p.pFilesz)))
    (Nat.dvd_add hb.aligned (pageAligned_pagesUp (p.pVaddr + p.pMemsz)))
    (Nat.add_le_add_left (Nat.le_of_lt hlt) b)
  have hprot := @protAt_mapSpace content s' _ hvalid (segmentProt_lt _)
  have hbytes := @bytes_mapSpace_anonymous content s' _ hvalid (bssCall_flags _ _ p)
  rw [hend] at hprot hbytes
  have hfs := le_pagesUp (p.pVaddr + p.pFilesz)
  refine ⟨⟨fun j hj => ?_, fun j hlo hhi => ?_, fun _ x hlo hhi => ?_⟩, fun x hx => ?_⟩
  · have hx : ¬ (b + pagesUp (p.pVaddr + p.pFilesz) ≤ b + p.pVaddr + j ∧
        b + p.pVaddr + j < b + pagesUp (p.pVaddr + p.pMemsz)) := by
      omega
    rw [hfile.file j hj]
    exact congrArg some ((hbytes _).trans (if_neg hx)).symm
  -- such a byte is in the last page of the file's part, or in the new pages
  · by_cases hpage : p.pVaddr + j < pagesUp (p.pVaddr + p.pFilesz)
    · have hx : ¬ (b + pagesUp (p.pVaddr + p.pFilesz) ≤ b + p.pVaddr + j ∧
          b + p.pVaddr + j < b + pagesUp (p.pVaddr + p.pMemsz)) := by
        omega
      exact ((hbytes _).trans (if_neg hx)).trans (hfile.cleared j hlo hhi hpage)
    · have hms := le_pagesUp (p.pVaddr + p.pMemsz)
      have hx : b + pagesUp (p.pVaddr + p.pFilesz) ≤ b + p.pVaddr + j ∧
          b + p.pVaddr + j < b + pagesUp (p.pVaddr + p.pMemsz) := by
        omega
      exact (hbytes _).trans (if_pos hx)
  · rw [roundUp_window h.window] at hhi
    by_cases hpage : x < pagesUp (p.pVaddr + p.pFilesz)
    · have hx : ¬ (b + pagesUp (p.pVaddr + p.pFilesz) ≤ b + x ∧
          b + x < b + pagesUp (p.pVaddr + p.pMemsz)) := by
        omega
      exact ((hprot _).trans (if_neg hx)).trans (hfile.prot x hlo hpage)
    · have hx : b + pagesUp (p.pVaddr + p.pFilesz) ≤ b + x ∧
          b + x < b + pagesUp (p.pVaddr + p.pMemsz) := by
        omega
      exact (hprot _).trans (if_pos hx)
  · exact ⟨(hprot x).trans (if_neg hx), (hbytes x).trans (if_neg hx)⟩

/-- The base for the next segments. -/
def nextBase (first : Bool) (b : Nat) (p : Elf64Phdr) : Nat :=
  if first then lastMapping b p else b

/-- What mapping one segment at the base `b` comes to; `new` are its calls. -/
structure SegmentResult (env : LoaderEnv) (content : List UInt8) (p : Elf64Phdr) (b : Nat)
    (ld : Loader) (rc : Nat) (ld' : Loader) (new : List MapEvent) : Prop where
  calls : ld'.calls = ld.calls ++ new
  granted : (∀ n s c, (env.kernels n).refusesMmap s c = none) → NoFailure new
  outside : ∀ x, ¬ (b + roundDown p.pVaddr ≤ x ∧ x < b + pagesUp (p.pVaddr + p.pMemsz)) →
    ld'.space.protAt x = ld.space.protAt x ∧ ld'.space.bytes x = ld.space.bytes x
  base : ld'.firstTime = ld.firstTime ∧ ld'.baseAddress = b ∨
    ld'.firstTime = false ∧ ld'.baseAddress = nextBase ld.firstTime b p
  mapped : NoFailure new → 0 < p.pFilesz + pageOffset p.pVaddr →
    ld'.firstTime = false ∧ ld'.baseAddress = nextBase ld.firstTime b p ∧ rc = ld'.baseAddress ∧
      SegmentAt ld'.space content b p
  skipped : p.pFilesz + pageOffset p.pVaddr = 0 →
    rc = 0 ∧ (∀ x, ld'.space.protAt x = ld.space.protAt x) ∧ ld'.firstTime = ld.firstTime
  /-- What is mapped from the file is where the base says. -/
  placed : ∀ e ∈ new, e.header = ld.header ∧
    (e.ret ≠ mapFailed → e.call.flags &&& mapAnonymous = 0 → e.ret = b + roundDown p.pVaddr)
  result : rc = 0 ∨ rc = nextBase ld.firstTime b p ∧ ld'.firstTime = false ∧
    ld'.baseAddress = nextBase ld.firstTime b p

theorem Base.roundUp_wrap (hb : Base b) {v n : Nat} (h : v + n ≤ ldSoWindow) :
    roundUp (wrap (b + v + n)) = b + pagesUp (v + n) := by
  rw [Nat.add_assoc, hb.wrap_add h, hb.roundUp_add h, roundUp_window h]

theorem bss_validRange (h : LoadableSegment content p) (hb : Base b)
    (hlt : pagesUp (p.pVaddr + p.pFilesz) < pagesUp (p.pVaddr + p.pMemsz)) :
    ValidRange (bssCall (b + pagesUp (p.pVaddr + p.pFilesz)) (b + pagesUp (p.pVaddr + p.pMemsz))
      p).addr (bssCall (b + pagesUp (p.pVaddr + p.pFilesz)) (b + pagesUp (p.pVaddr + p.pMemsz))
      p).length where
  aligned := Nat.dvd_add hb.aligned (pageAligned_pagesUp _)
  pos := Nat.sub_pos_of_lt (Nat.add_lt_add_left hlt b)
  room := by
    rw [bssCall_end (Nat.dvd_add hb.aligned (pageAligned_pagesUp _))
      (Nat.dvd_add hb.aligned (pageAligned_pagesUp _)) (Nat.add_le_add_left (Nat.le_of_lt hlt) b)]
    have hle := hb.le
    have hpages := pagesUp_le h.window (by decide : PageAligned ldSoWindow)
    unfold ldSoWindow at hpages
    unfold wordSize
    omega

/-- The assertions on a segment. -/
theorem LoadableSegment.asserted (h : LoadableSegment content p) :
    ¬ p.pMemsz < p.pFilesz ∧
      ¬ (p.pAlign > 1 ∧ p.pVaddr % p.pAlign ≠ p.pOffset % p.pAlign) :=
  ⟨Nat.not_lt.2 h.size, fun hbad => hbad.2 (h.align hbad.1)⟩

theorem mapElfInterpreterLoadSegment_failed {env : LoaderEnv} (h : LoadableSegment content p)
    {ld ld₁ : Loader} (hbase : (ld.setBase env.rankId).baseAddress = b)
    (hcall : (ld.setBase env.rankId).mmapWrapper env content (fileCall env.ldSoFd b p) =
      .ok (mapFailed, ld₁)) :
    mapElfInterpreterLoadSegment env content p ld = .ok (0, ld₁) := by
  rcases h.asserted with ⟨hsize, halign⟩
  simp only [mapElfInterpreterLoadSegment, if_neg hsize, if_neg halign, hbase]
  rw [hcall, Exec.ok_bind, if_pos rfl]
  rfl

theorem mapElfInterpreterLoadSegment_mapped {env : LoaderEnv} (h : LoadableSegment content p)
    {ld ld₁ ld₂ ld₃ : Loader} {rc₁ rc₂ : Nat}
    (hbase : (ld.setBase env.rankId).baseAddress = b)
    (hcall : (ld.setBase env.rankId).mmapWrapper env content (fileCall env.ldSoFd b p) =
      .ok (rc₁, ld₁)) (hne : rc₁ ≠ mapFailed) (hbase₁ : ld₁.baseAddress = b)
    (hclear : ld₁.clearBss p (wrap (b + p.pVaddr + p.pFilesz)) = .ok ld₂)
    (hbss : ld₂.mapBss env content p (roundUp (wrap (b + p.pVaddr + p.pFilesz)))
      (roundUp (wrap (b + p.pVaddr + p.pMemsz))) rc₁ = .ok (rc₂, ld₃)) :
    mapElfInterpreterLoadSegment env content p ld =
      if rc₂ = mapFailed then .ok (0, ld₃)
      else .ok ((ld₃.fixBase rc₂).baseAddress, ld₃.fixBase rc₂) := by
  rcases h.asserted with ⟨hsize, halign⟩
  simp only [mapElfInterpreterLoadSegment, if_neg hsize, if_neg halign, hbase]
  rw [hcall, Exec.ok_bind, if_neg hne, hbase₁, hclear, Exec.ok_bind, hbss, Exec.ok_bind]
  rfl

theorem segmentResult_mapped {env : LoaderEnv} {ld ld' : Loader} {new : List MapEvent}
    (hcalls : ld'.calls = ld.calls ++ new) (hgranted : ∀ e ∈ new, e.ret ≠ mapFailed)
    (hfirst : ld'.firstTime = ld.firstTime) (hbase : ld'.baseAddress = b)
    (hsegment : SegmentAt ld'.space content b p)
    (houtside : ∀ x, ¬ (b + roundDown p.pVaddr ≤ x ∧ x < b + pagesUp (p.pVaddr + p.pMemsz)) →
      ld'.space.protAt x = ld.space.protAt x ∧ ld'.space.bytes x = ld.space.bytes x)
    (hpos : 0 < p.pFilesz + pageOffset p.pVaddr)
    (hplaced : ∀ e ∈ new, e.header = ld.header ∧
      (e.ret ≠ mapFailed → e.call.flags &&& mapAnonymous = 0 → e.ret = b + roundDown p.pVaddr))
    {rc : Nat} (hrc : rc = lastMapping b p) :
    SegmentResult env content p b ld (ld'.fixBase rc).baseAddress (ld'.fixBase rc) new := by
  have hnext : (ld'.fixBase rc).baseAddress = nextBase ld.firstTime b p := by
    rw [Loader.baseAddress_fixBase, hfirst, hbase, hrc, nextBase]
  constructor
  · rw [Loader.calls_fixBase, hcalls]
  · exact fun _ e he _ => hgranted e he
  · simpa using houtside
  · exact .inr ⟨Loader.firstTime_fixBase _ _, hnext⟩
  · exact fun _ _ => ⟨Loader.firstTime_fixBase _ _, hnext, rfl, by simpa using hsegment⟩
  · intro hzero
    omega
  · exact hplaced
  · exact .inr ⟨hnext, Loader.firstTime_fixBase _ _, hnext⟩

/-- The loader `ld₁` after the mapping `e` of the file, and the memory `s'` after the `memset`. -/
structure FileMapped (env : LoaderEnv) (content : List UInt8) (p : Elf64Phdr) (b : Nat)
    (ld ld₁ : Loader) (e : MapEvent) (s' : AddrSpace) : Prop where
  base : (ld.setBase env.rankId).baseAddress = b
  call : (ld.setBase env.rankId).mmapWrapper env content (fileCall env.ldSoFd b p) =
    .ok (b + roundDown p.pVaddr, ld₁)
  ret_ne : b + roundDown p.pVaddr ≠ mapFailed
  calls : ld₁.calls = ld.calls ++ [e]
  header : e.header = ld.header ∧ ld₁.header = ld.header
  ret : e.ret = b + roundDown p.pVaddr
  firstTime : ld₁.firstTime = ld.firstTime
  baseAddress : ld₁.baseAddress = b
  clear : ld₁.clearBss p (wrap (b + p.pVaddr + p.pFilesz)) = .ok { ld₁ with space := s' }
  part : FilePart ld.space s' content b p

section FileMapped

variable {env : LoaderEnv} {ld ld₁ : Loader} {e : MapEvent} {s' : AddrSpace}

/-- The rest of the call is the second mapping and what follows from its result. -/
theorem FileMapped.run (hf : FileMapped env content p b ld ld₁ e s')
    (h : LoadableSegment content p) (hb : Base b) {rc₂ : Nat} {ld₃ : Loader}
    (hbss : ({ ld₁ with space := s' } : Loader).mapBss env content p
      (b + pagesUp (p.pVaddr + p.pFilesz)) (b + pagesUp (p.pVaddr + p.pMemsz))
      (b + roundDown p.pVaddr) = .ok (rc₂, ld₃)) :
    mapElfInterpreterLoadSegment env content p ld =
      if rc₂ = mapFailed then .ok (0, ld₃)
      else .ok ((ld₃.fixBase rc₂).baseAddress, ld₃.fixBase rc₂) := by
  rw [← hb.roundUp_wrap h.fileEnd_le, ← hb.roundUp_wrap h.window] at hbss
  exact mapElfInterpreterLoadSegment_mapped h hf.base hf.call hf.ret_ne hf.baseAddress hf.clear hbss

theorem FileMapped.outside (hf : FileMapped env content p b ld ld₁ e s')
    (h : LoadableSegment content p) {x : Nat}
    (hx : ¬ (b + roundDown p.pVaddr ≤ x ∧ x < b + pagesUp (p.pVaddr + p.pMemsz))) :
    s'.protAt x = ld.space.protAt x ∧ s'.bytes x = ld.space.bytes x := by
  have hle : pagesUp (p.pVaddr + p.pFilesz) ≤ pagesUp (p.pVaddr + p.pMemsz) :=
    pagesUp_le (le_trans (Nat.add_le_add_left h.size _) (le_pagesUp _)) (pageAligned_pagesUp _)
  exact hf.part.outside x (by omega)

/-- The file's pages are all. -/
theorem FileMapped.result_noBss (hf : FileMapped env content p b ld ld₁ e s')
    (h : LoadableSegment content p) (hb : Base b) (hpos : 0 < p.pFilesz + pageOffset p.pVaddr)
    (hge : pagesUp (p.pVaddr + p.pMemsz) ≤ pagesUp (p.pVaddr + p.pFilesz)) :
    ∃ rc ld' new, mapElfInterpreterLoadSegment env content p ld = .ok (rc, ld') ∧
      SegmentResult env content p b ld rc ld' new := by
  have hnot : ¬ b + pagesUp (p.pVaddr + p.pMemsz) > b + pagesUp (p.pVaddr + p.pFilesz) :=
    Nat.not_lt.2 (Nat.add_le_add_left hge b)
  refine ⟨_, _, [e], (hf.run h hb (if_neg hnot)).trans (if_neg hf.ret_ne), ?_⟩
  apply segmentResult_mapped
  · exact hf.calls
  · intro f hmem
    obtain rfl := List.mem_singleton.1 hmem
    rw [hf.ret]
    exact hf.ret_ne
  · exact hf.firstTime
  · exact hf.baseAddress
  · exact hf.part.segmentAt h hge
  · exact fun x hx => hf.outside h hx
  · exact hpos
  · intro f hmem
    obtain rfl := List.mem_singleton.1 hmem
    exact ⟨hf.header.1, fun _ _ => hf.ret⟩
  · rw [lastMapping, roundUp_window h.fileEnd_le, roundUp_window h.window,
      if_neg (Nat.not_lt.2 hge)]

/-- There are pages behind the file's, which are mapped or not. -/
theorem FileMapped.result_bss (hf : FileMapped env content p b ld ld₁ e s')
    (hlink : checkLibrary env.link libcName = none) (h : LoadableSegment content p) (hb : Base b)
    (hpos : 0 < p.pFilesz + pageOffset p.pVaddr)
    (hlt : pagesUp (p.pVaddr + p.pFilesz) < pagesUp (p.pVaddr + p.pMemsz)) :
    ∃ rc ld' new, mapElfInterpreterLoadSegment env content p ld = .ok (rc, ld') ∧
      SegmentResult env content p b ld rc ld' new := by
  have hvalid := bss_validRange h hb hlt
  let c := bssCall (b + pagesUp (p.pVaddr + p.pFilesz)) (b + pagesUp (p.pVaddr + p.pMemsz)) p
  have hmapBss : ({ ld₁ with space := s' } : Loader).mapBss env content p
      (b + pagesUp (p.pVaddr + p.pFilesz)) (b + pagesUp (p.pVaddr + p.pMemsz))
      (b + roundDown p.pVaddr) = ({ ld₁ with space := s' } : Loader).mmapWrapper env content c :=
    if_pos (Nat.add_lt_add_left hlt b)
  rcases @Loader.mmapWrapper_cases env content hlink c { ld₁ with space := s' } with
    ⟨ret, table, space, hcall₂, ⟨rfl, hpartly, hnot⟩ | ⟨rfl, hvalid₂, rfl⟩⟩
  · -- they are not mapped
    have hend := @bssCall_end p _ _
      (Nat.dvd_add hb.aligned (pageAligned_pagesUp (p.pVaddr + p.pFilesz)))
      (Nat.dvd_add hb.aligned (pageAligned_pagesUp (p.pVaddr + p.pMemsz)))
      (Nat.add_le_add_left (Nat.le_of_lt hlt) b)
    refine ⟨_, _, [e, ⟨ld₁.header, c, mapFailed⟩],
      (hf.run h hb (hmapBss.trans hcall₂)).trans (if_pos rfl), ?_⟩
    constructor
    · simp [hf.calls]
    · intro hplain
      exact absurd ⟨Nat.zero_and _, hplain _ _ _, hvalid⟩ hnot
    · intro x hx
      have hdown : roundDown p.pVaddr ≤ pagesUp (p.pVaddr + p.pFilesz) := by
        rw [← roundDown_add_pagesUp]
        exact Nat.le_add_right _ _
      have hout : ¬ (c.addr ≤ x ∧ x < c.addr + pagesUp c.length) := by
        rw [hend]
        rintro ⟨hlo, hhi⟩
        exact hx ⟨le_trans (Nat.add_le_add_left hdown b) hlo, hhi⟩
      rcases hf.outside h hx with ⟨hprot, hbytes⟩
      exact ⟨(hpartly.protAt_of_not_mem hout).trans hprot, (congrFun hpartly.bytes x).trans hbytes⟩
    · exact .inl ⟨hf.firstTime, hf.baseAddress⟩
    · intro hnone _
      exact absurd rfl (hnone ⟨ld₁.header, c, mapFailed⟩ (by simp) (Nat.ne_of_gt hvalid.pos))
    · intro hzero
      omega
    · intro f hmem
      rcases List.mem_pair.1 hmem with rfl | rfl
      · exact ⟨hf.header.1, fun _ _ => hf.ret⟩
      · exact ⟨hf.header.2, fun hne => absurd rfl hne⟩
    · exact .inl rfl
  · -- they are mapped
    refine ⟨_, _, [e, ⟨ld₁.header, c, c.addr⟩],
      (hf.run h hb (hmapBss.trans hcall₂)).trans (if_neg hvalid.ne_mapFailed), ?_⟩
    rcases hf.part.segmentAt_bss h hb hlt hvalid with ⟨hsegment, hrest⟩
    apply segmentResult_mapped
    · simp [hf.calls]
    · intro f hmem
      rcases List.mem_pair.1 hmem with rfl | rfl
      · rw [hf.ret]
        exact hf.ret_ne
      · exact hvalid.ne_mapFailed
    · exact hf.firstTime
    · exact hf.baseAddress
    · exact hsegment
    · intro x hx
      have hdown : roundDown p.pVaddr ≤ pagesUp (p.pVaddr + p.pFilesz) := by
        rw [← roundDown_add_pagesUp]
        exact Nat.le_add_right _ _
      rcases hrest x (by omega) with ⟨hprot, hbytes⟩
      rcases hf.outside h hx with ⟨hprot', hbytes'⟩
      exact ⟨hprot.trans hprot', hbytes.trans hbytes'⟩
    · exact hpos
    · intro f hmem
      rcases List.mem_pair.1 hmem with rfl | rfl
      · exact ⟨hf.header.1, fun _ _ => hf.ret⟩
      · exact ⟨hf.header.2, fun _ hfile => absurd hfile (bssCall_flags _ _ p)⟩
    · rw [lastMapping, roundUp_window h.fileEnd_le, roundUp_window h.window, if_pos hlt]
      rfl

end FileMapped

theorem mapElfInterpreterLoadSegment_result {env : LoaderEnv}
    (hlink : checkLibrary env.link libcName = none) (h : LoadableSegment content p)
    (hoff : p.pOffset < wordSize) (hb : Base b) {ld : Loader}
    (hbase : (ld.setBase env.rankId).baseAddress = b) :
    ∃ rc ld' new, mapElfInterpreterLoadSegment env content p ld = .ok (rc, ld') ∧
      SegmentResult env content p b ld rc ld' new := by
  let c := fileCall env.ldSoFd b p
  rcases @Loader.mmapWrapper_cases env content hlink c (ld.setBase env.rankId) with
    ⟨ret, table, space, hcall, ⟨rfl, hpartly, hnot⟩ | ⟨rfl, hvalid, rfl⟩⟩
  · -- the file is not mapped
    rw [Loader.space_setBase] at hpartly
    refine ⟨0, _, [⟨ld.header, c, mapFailed⟩],
      mapElfInterpreterLoadSegment_failed h hbase hcall, ?_⟩
    constructor
    · simp
    · intro hplain e he hne
      obtain rfl := List.mem_singleton.1 he
      have hpos : 0 < p.pFilesz + pageOffset p.pVaddr := by
        by_contra hzero
        apply hne
        show c.length = 0
        rw [fileCall_length h, Nat.eq_zero_of_not_pos hzero]
        rfl
      exact absurd ⟨(fileCall_offset h hoff hpos _).2, hplain _ _ _,
        fileCall_validRange h hb hpos _⟩ hnot
    · intro x hx
      have hle : pagesUp (p.pVaddr + p.pFilesz) ≤ pagesUp (p.pVaddr + p.pMemsz) :=
        pagesUp_le (le_trans (Nat.add_le_add_left h.size _) (le_pagesUp _)) (pageAligned_pagesUp _)
      have hout : ¬ (c.addr ≤ x ∧ x < c.addr + pagesUp c.length) := by
        rw [fileCall_end h hb, fileCall_addr h hb]
        rintro ⟨hlo, hhi⟩
        exact hx ⟨hlo, lt_of_lt_of_le hhi (Nat.add_le_add_left hle b)⟩
      exact ⟨hpartly.protAt_of_not_mem hout, congrFun hpartly.bytes x⟩
    · exact .inl ⟨by simp, hbase⟩
    · intro hnone hpos
      refine absurd rfl (hnone _ (List.mem_singleton_self _) ?_)
      show c.length ≠ 0
      rw [fileCall_length h]
      have := le_pagesUp (p.pFilesz + pageOffset p.pVaddr)
      omega
    · intro hzero
      have hinvalid : ¬ ValidRange c.addr c.length := fun hvalid =>
        absurd (pos_of_validRange h hvalid) (by omega)
      exact ⟨rfl, hpartly.protAt_of_invalid hinvalid, by simp⟩
    · intro f hmem
      obtain rfl := List.mem_singleton.1 hmem
      exact ⟨rfl, fun hne => absurd rfl hne⟩
    · exact .inl rfl
  · -- the file is mapped
    -- a range that was mapped is not empty
    have hpos := pos_of_validRange h hvalid
    have haddr : c.addr = b + roundDown p.pVaddr := fileCall_addr h hb _
    have hspace := Loader.space_setBase env.rankId ld
    rcases @clearBss_filePart content p b h hb hoff (ld.setBase env.rankId).space env.ldSoFd hvalid
      { ld.setBase env.rankId with
        space := mapSpace content (ld.setBase env.rankId).space c hvalid
        table := table
        calls := (ld.setBase env.rankId).calls ++
          [⟨(ld.setBase env.rankId).header, c, c.addr⟩] } rfl with ⟨s', hclear, hpart⟩
    have hret := hvalid.ne_mapFailed
    rw [hspace] at hpart
    rw [haddr] at hcall hclear hret
    have hf : FileMapped env content p b ld _ ⟨ld.header, c, b + roundDown p.pVaddr⟩ s' :=
      ⟨hbase, hcall, hret, by simp, by simp, rfl, by simp, hbase, hclear, hpart⟩
    by_cases hlt : pagesUp (p.pVaddr + p.pFilesz) < pagesUp (p.pVaddr + p.pMemsz)
    · exact hf.result_bss hlink h hb hpos hlt
    · exact hf.result_noBss h hb hpos (Nat.not_lt.1 hlt)

end Segment

end CkptRestart
