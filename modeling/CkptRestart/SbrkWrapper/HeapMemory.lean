import CkptRestart.AddressSpace
import CkptRestart.Lib.Exec
import CkptRestart.MemCkpt.Select
import CkptRestart.SbrkWrapper

/-!
# HeapMemory — the heap of the upper half in its address space

`createNewHeapForRtld` and `sbrkWrapper` with the memory that their mappings change.  A heap starts
as a hundred pages, the first of them without access; a call that moves the break past the end maps
more at the end with `MAP_FIXED`.

`sbrk_cases` says all that a call can do while the break is in the heap.  Between calls the program
writes below the break or outside the heap, and the kernel places other mappings where it finds room
(`Step`).
-/

namespace CkptRestart

open Lib

/-! ## Arithmetic of the break -/

/-- An `intptr_t`. -/
def InIntPtr (i : Int) : Prop := -0x8000000000000000 ≤ i ∧ i < 0x8000000000000000

instance (i : Int) : Decidable (InIntPtr i) := inferInstanceAs (Decidable (_ ∧ _))

/-- The test refuses exactly the breaks that are not addresses. -/
theorem breakOverflows_iff {oldbrk : Nat} {k : Int} (hbrk : oldbrk < wordSize) (hk : InIntPtr k) :
    breakOverflows oldbrk k = true ↔ (oldbrk : Int) + k < 0 ∨ (wordSize : Int) ≤ oldbrk + k := by
  rcases hk with ⟨hlow, hhigh⟩
  by_cases hpos : k > 0
  · simp only [breakOverflows, if_pos hpos, decide_eq_true_eq]
    unfold wrap toUnsigned wordSize at *
    omega
  · simp only [breakOverflows, if_neg hpos, decide_eq_true_eq]
    unfold toUnsigned wordSize at *
    omega

theorem movedBreak_eq {oldbrk : Nat} {k : Int} (hbrk : oldbrk < wordSize) (hk : InIntPtr k)
    (hover : ¬ breakOverflows oldbrk k = true) : (movedBreak oldbrk k : Int) = oldbrk + k := by
  rw [breakOverflows_iff hbrk hk] at hover
  rcases hk with ⟨hlow, hhigh⟩
  unfold movedBreak wrap toUnsigned wordSize at *
  omega

/-! ## The code -/

/-- The lower half's statics, the address space, and the mappings that have been made for the
heap. -/
structure HeapProc where
  heap : Heap
  space : AddrSpace
  regions : List MmapInfo

namespace HeapProc

/-- `createNewHeapForRtld` when the kernel places the heap at `addr`; the result of its `mprotect` is
not looked at. -/
def createNewHeap (k : Kernel) (h : Heap) (space : AddrSpace) (addr : Nat)
    (hvalid : ValidRange addr (100 * pageSize)) : Option HeapProc := do
  let heap ← createNewHeapForRtld h ⟨addr, .EINVAL, none⟩
  let space := space.mapFixed addr (100 * pageSize) (protRead ||| protWrite) hvalid
  pure ⟨heap, (k.mprotect space addr pageSize protNone).2, [⟨addr, 100 * pageSize⟩]⟩

def failedMmap : MmapWorld := ⟨mapFailed, .ENOMEM, none⟩

/-- `sbrkWrapper`: its result, and the process after the mapping that it asks for, if any. -/
def sbrk (k : Kernel) (brkRet : Int) (p : HeapProc) (increment : Int) : Nat × HeapProc :=
  -- what a call asks for does not depend on the answer
  match (sbrkWrapper p.heap increment ⟨brkRet, failedMmap⟩).request with
  | none =>
      let out := sbrkWrapper p.heap increment ⟨brkRet, failedMmap⟩
      (out.ret, { p with heap := out.heap })
  | some call =>
      let (world, space) := k.mmapFixed p.space call
      let out := sbrkWrapper p.heap increment ⟨brkRet, world⟩
      (out.ret, ⟨out.heap, space, p.regions ++ (mappedBy call world).toList⟩)

end HeapProc

/-! ## One call -/

namespace HeapProc

/-- The process after the heap was extended to the end of the page of a new break. -/
def extend (p : HeapProc) (new : Nat)
    (hvalid : ValidRange p.heap.endOfHeap (roundUp (new - p.heap.endOfHeap))) : HeapProc :=
  let region : MmapInfo := ⟨p.heap.endOfHeap, roundUp (new - p.heap.endOfHeap)⟩
  ⟨⟨new, roundUp new, p.heap.table.track region⟩,
    p.space.mapFixed region.addr region.len (protRead ||| protWrite) hvalid,
    p.regions ++ [region]⟩

/-- The process after the kernel has refused to extend the heap to a new break. -/
def refuse (k : Kernel) (p : HeapProc) (new : Nat) : HeapProc :=
  { p with space := (k.mmapFixed p.space (heapRequest p.heap.endOfHeap new)).2 }

/-- All that a call can do when a break is set: its result and the process after it. -/
inductive Sbrk (k : Kernel) (p : HeapProc) (increment : Int) : Nat → HeapProc → Prop
  | query (hzero : increment = 0) : Sbrk k p increment p.heap.curbrk p
  | overflows (hover : breakOverflows p.heap.curbrk increment = true) :
      Sbrk k p increment mapFailed p
  /-- The new break lies in the pages that there are. -/
  | within {new : Nat} (hnew : (new : Int) = p.heap.curbrk + increment) (hne : increment ≠ 0)
      (hle : new ≤ p.heap.endOfHeap) :
      Sbrk k p increment p.heap.curbrk { p with heap := ⟨new, roundUp new, p.heap.table⟩ }
  | refused {new : Nat} (hnew : (new : Int) = p.heap.curbrk + increment) (hword : new < wordSize)
      (hlt : p.heap.endOfHeap < new)
      (hrefused : ¬ k.Grants p.space (heapRequest p.heap.endOfHeap new)) :
      Sbrk k p increment mapFailed (p.refuse k new)
  | extended {new : Nat} (hnew : (new : Int) = p.heap.curbrk + increment) (hword : new < wordSize)
      (hlt : p.heap.endOfHeap < new)
      (hgrants : k.Grants p.space (heapRequest p.heap.endOfHeap new))
      (hvalid : ValidRange p.heap.endOfHeap (roundUp (new - p.heap.endOfHeap))) :
      Sbrk k p increment p.heap.curbrk (p.extend new hvalid)

theorem sbrk_cases (k : Kernel) (brkRet : Int) {p : HeapProc} {increment : Int}
    (hset : p.heap.curbrk ≠ 0) (hbrk : p.heap.curbrk < wordSize) (hrange : InIntPtr increment) :
    Sbrk k p increment (p.sbrk k brkRet increment).1 (p.sbrk k brkRet increment).2 := by
  by_cases hzero : increment = 0
  · have hrun : p.sbrk k brkRet increment = (p.heap.curbrk, p) := by
      simp [sbrk, sbrkWrapper, hset, hzero]
    rw [hrun]
    exact .query hzero
  by_cases hover : breakOverflows p.heap.curbrk increment = true
  · have hrun : p.sbrk k brkRet increment = (mapFailed, p) := by
      simp [sbrk, sbrkWrapper, hset, hzero, hover]
    rw [hrun]
    exact .overflows hover
  -- the break moves as it would without the bounds of a word
  have hnew := movedBreak_eq hbrk hrange hover
  have hword : movedBreak p.heap.curbrk increment < wordSize := Nat.mod_lt _ (by decide)
  by_cases hgrow : p.heap.endOfHeap < movedBreak p.heap.curbrk increment
  · have hrequest : (sbrkWrapper p.heap increment ⟨brkRet, failedMmap⟩).request =
        some (heapRequest p.heap.endOfHeap (movedBreak p.heap.curbrk increment)) := by
      simp [sbrkWrapper, hset, hzero, hover, hgrow,
        mmapWrapper_ret_of_failed _ _ (show failedMmap.ret = mapFailed from rfl)]
    rcases k.mmapFixed_cases p.space (heapRequest p.heap.endOfHeap
      (movedBreak p.heap.curbrk increment)) with ⟨hrefused, hfail, _⟩ | ⟨hgrants, hvalid, hmap⟩
    · rcases mmapWrapper_of_failed p.heap.table (heapRequest p.heap.endOfHeap
        (movedBreak p.heap.curbrk increment)) hfail with ⟨hnone, hret, htable⟩
      have hrun : p.sbrk k brkRet increment =
          (mapFailed, p.refuse k (movedBreak p.heap.curbrk increment)) := by
        simp only [sbrk, hrequest, hnone]
        simp [sbrkWrapper, hset, hzero, hover, hgrow, hret, htable, refuse]
      rw [hrun]
      exact .refused hnew hword hgrow hrefused
    · have hne : p.heap.endOfHeap ≠ mapFailed := hvalid.ne_mapFailed
      have hrun : p.sbrk k brkRet increment =
          (p.heap.curbrk, p.extend (movedBreak p.heap.curbrk increment) hvalid) := by
        simp only [sbrk, hrequest, hmap]
        simp [sbrkWrapper, hset, hzero, hover, hgrow, mmapWrapper, mappedBy, heapRequest, hne,
          extend]
      rw [hrun]
      exact .extended hnew hword hgrow hgrants hvalid
  · have hrun : p.sbrk k brkRet increment = (p.heap.curbrk, { p with
        heap := ⟨movedBreak p.heap.curbrk increment,
          roundUp (movedBreak p.heap.curbrk increment), p.heap.table⟩ }) := by
      simp [sbrk, sbrkWrapper, hset, hzero, hover, hgrow]
    rw [hrun]
    exact .within hnew hzero (not_lt.1 hgrow)

/-- A refusal leaves the bytes, and the mappings in front of the end of the heap. -/
theorem refuse_spec (k : Kernel) (p : HeapProc) {new : Nat}
    (hrefused : ¬ k.Grants p.space (heapRequest p.heap.endOfHeap new)) :
    AddrSpace.Partly (fun _ => none) p.space p.heap.endOfHeap (roundUp (new - p.heap.endOfHeap))
      (p.refuse k new).space := by
  rcases k.mmapFixed_cases p.space (heapRequest p.heap.endOfHeap new) with
    ⟨_, _, hpartly⟩ | ⟨hgrants, _⟩
  · exact hpartly
  · exact absurd hgrants hrefused

end HeapProc

/-! ## Runs -/

/-- What happens to the process: a call of `sbrkWrapper` with the answers of the kernel and its
result, another mapping with the place that the kernel has chosen and what it then holds, and a
write of the program. -/
inductive HeapEvent
  | sbrk (k : Kernel) (increment : Int) (ret : Nat)
  | mmap (call : MmapCall) (world : MmapWorld) (data : List UInt8)
  | store (addr : Nat) (data : List UInt8)

namespace HeapProc

/-- Another mapping, made by `mmapWrapper` where the kernel wants it; a call that fails changes
nothing (`mmapWrapper_of_failed`). -/
def mmapAt (p : HeapProc) (call : MmapCall) (world : MmapWorld) (data : List UInt8)
    (hvalid : ValidRange world.ret call.length) : HeapProc :=
  { p with
    heap := { p.heap with table := (mmapWrapper p.heap.table call world).table }
    space := (p.space.mapFixed world.ret call.length call.prot hvalid).store world.ret data }

inductive Step : HeapProc → HeapEvent → HeapProc → Prop
  | sbrk {p : HeapProc} {k : Kernel} {increment : Int} (brkRet : Int)
      (hrange : InIntPtr increment) :
      Step p (.sbrk k increment (p.sbrk k brkRet increment).1) (p.sbrk k brkRet increment).2
  | mmap {p : HeapProc} {call : MmapCall} {world : MmapWorld} {data : List UInt8}
      (hoffset : call.offset &&& mmapOffMask = 0)
      (hvalid : ValidRange world.ret call.length)
      (hfree : p.space.maps.Free world.ret (world.ret + pagesUp call.length))
      (hdata : data.length ≤ pagesUp call.length) :
      Step p (.mmap call world data) (p.mmapAt call world data hvalid)
  | store {p : HeapProc} {addr : Nat} {data : List UInt8}
      (houtside : addr + data.length ≤ p.heap.curbrk ∨ p.heap.endOfHeap ≤ addr) :
      Step p (.store addr data) { p with space := p.space.store addr data }

/-- A step that leaves the break at its starting value or above. -/
def StepAbove (start : Nat) (p : HeapProc) (e : HeapEvent) (q : HeapProc) : Prop :=
  Step p e q ∧ start ≤ q.heap.curbrk

/-- A process after `createNewHeapForRtld`, whose break is at `start`. -/
inductive NewHeap : Nat → HeapProc → Prop
  | mk {k : Kernel} {h : Heap} {space : AddrSpace} {addr : Nat}
      {hvalid : ValidRange addr (100 * pageSize)} {p : HeapProc}
      (hfree : space.maps.Free addr (addr + pagesUp (100 * pageSize)))
      (hp : createNewHeap k h space addr hvalid = some p) : NewHeap (addr + pageSize) p

/-- A new heap has its break one page after its start and its end ninety-nine pages later. -/
theorem createNewHeap_eq (k : Kernel) (h : Heap) (space : AddrSpace) {addr : Nat}
    (hvalid : ValidRange addr (100 * pageSize)) :
    ∃ table, createNewHeap k h space addr hvalid = some
      ⟨⟨addr + pageSize, addr + 100 * pageSize, table⟩,
        (k.mprotect (space.mapFixed addr (100 * pageSize) (protRead ||| protWrite) hvalid) addr
          pageSize protNone).2,
        [⟨addr, 100 * pageSize⟩]⟩ := by
  have hpages : pagesUp (100 * pageSize) = 100 * pageSize := pagesUp_of_aligned (Nat.dvd_mul_left _ _)
  have hroom : addr + 100 * pageSize < wordSize := by simpa [hpages] using hvalid.room
  have hfirst : addr + pageSize < wordSize :=
    lt_of_le_of_lt (Nat.add_le_add_left (by decide) addr) hroom
  have haligned : PageAligned (addr + 100 * pageSize) :=
    Nat.dvd_add hvalid.aligned (Nat.dvd_mul_left _ _)
  have hend : roundUp (addr + 100 * pageSize) = addr + 100 * pageSize :=
    (roundUp_eq_pagesUp le_rfl haligned hroom).trans (pagesUp_of_aligned haligned)
  refine ⟨h.table.track ⟨addr, 100 * pageSize⟩, ?_⟩
  simp [createNewHeap, createNewHeapForRtld, newHeapCall, mmapWrapper, hvalid.ne_mapFailed,
    Heap.setEndOfHeap, Heap.setUhBrk, wrap_of_lt hroom, wrap_of_lt hfirst, hend]

theorem NewHeap.curbrk {start : Nat} {p : HeapProc} (h : NewHeap start p) :
    p.heap.curbrk = start := by
  rcases h with @⟨k, h, space, addr, hvalid, _, _, hp⟩
  rcases createNewHeap_eq k h space hvalid with ⟨table, hnew⟩
  obtain rfl := Option.some.inj (hnew.symm.trans hp)
  rfl

/-- An address space with a page of stack. -/
def stackSpace : AddrSpace where
  maps := ⟨[⟨0x80000, 0x81000, AddrSpace.anonymous (protRead ||| protWrite)⟩], by simp, by simp⟩
  bytes := fun _ => 0
  aligned := by
    intro s hs
    obtain rfl := List.mem_singleton.1 hs
    exact ⟨by decide, by decide⟩
  bounded := by
    intro s hs
    obtain rfl := List.mem_singleton.1 hs
    exact ⟨by decide, by decide⟩

/-- The heap that `createNewHeap` makes when the kernel places it at `0x10000`. -/
def lowHeap : HeapProc where
  heap := ⟨0x11000, 0x74000, MmapTable.initial.track ⟨0x10000, 100 * pageSize⟩⟩
  space := (Kernel.plain.mprotect
    (stackSpace.mapFixed 0x10000 (100 * pageSize) (protRead ||| protWrite) (by decide)) 0x10000
    pageSize protNone).2
  regions := [⟨0x10000, 100 * pageSize⟩]

theorem newHeap_lowHeap : NewHeap 0x11000 lowHeap := by
  have hfree : stackSpace.maps.Free 0x10000 (0x10000 + pagesUp (100 * pageSize)) := by decide
  exact @NewHeap.mk .plain .initial stackSpace 0x10000 (by decide) lowHeap hfree rfl

/-! ## The invariant -/

/-- The break lies in the heap, the heap ends with a page, all of it up to there can be read and
written, and from the page of the break on it holds zeros. -/
structure HeapInv (start : Nat) (p : HeapProc) : Prop where
  start_pos : 0 < start
  floor : start ≤ p.heap.curbrk
  le_end : p.heap.curbrk ≤ p.heap.endOfHeap
  end_aligned : PageAligned p.heap.endOfHeap
  end_lt : p.heap.endOfHeap < wordSize
  writable : ∀ x, start ≤ x → x < p.heap.endOfHeap →
    p.space.protAt x = some (protRead ||| protWrite)
  zero : ∀ x, pagesUp p.heap.curbrk ≤ x → x < p.heap.endOfHeap → p.space.bytes x = 0

/-- What an extension adds reaches from the end of the heap to the end of the page of the new
break. -/
theorem extension_reaches {e new : Nat} (he : PageAligned e) (hpos : 0 < e) (hlt : e < new)
    (hword : new < wordSize) (hvalid : ValidRange e (roundUp (new - e))) :
    e + pagesUp (roundUp (new - e)) = pagesUp new ∧ roundUp new = pagesUp new ∧
      pagesUp new < wordSize := by
  have hlen : roundUp (new - e) = pagesUp (new - e) := by
    have hpage : pageSize ≤ e := Nat.le_of_dvd hpos he
    have hroom : new - e + pageSize - 1 < wordSize := by omega
    rw [roundUp, wrap_of_lt hroom, pagesUp]
  have hreach : e + pagesUp (roundUp (new - e)) = pagesUp new := by
    rw [hlen, pagesUp_of_aligned (pageAligned_pagesUp _)]
    exact add_pagesUp_sub he (Nat.le_of_lt hlt)
  have hend : pagesUp new < wordSize := by
    rw [← hreach]
    exact hvalid.room
  exact ⟨hreach, roundUp_eq_pagesUp (le_pagesUp new) (pageAligned_pagesUp new) hend, hend⟩

namespace HeapInv

variable {start : Nat} {p q : HeapProc}

theorem end_pos (h : HeapInv start p) : 0 < p.heap.endOfHeap :=
  lt_of_lt_of_le h.start_pos (le_trans h.floor h.le_end)

theorem brk_ne (h : HeapInv start p) : p.heap.curbrk ≠ 0 :=
  Nat.ne_of_gt (lt_of_lt_of_le h.start_pos h.floor)

theorem brk_lt (h : HeapInv start p) : p.heap.curbrk < wordSize := lt_of_le_of_lt h.le_end h.end_lt

theorem brk_ne_mapFailed (h : HeapInv start p) : p.heap.curbrk ≠ mapFailed := by
  rintro hfailed
  have hend := h.end_aligned
  have hle := h.le_end
  have hlt := h.end_lt
  rcases hend with ⟨i, hi⟩
  unfold mapFailed pageSize wordSize at *
  omega

/-- A call is one of the five cases. -/
theorem sbrk_cases (h : HeapInv start p) (k : Kernel) (brkRet : Int) {increment : Int}
    (hrange : InIntPtr increment) :
    Sbrk k p increment (p.sbrk k brkRet increment).1 (p.sbrk k brkRet increment).2 :=
  HeapProc.sbrk_cases k brkRet h.brk_ne h.brk_lt hrange

theorem within (h : HeapInv start p) {new : Nat} (hfloor : start ≤ new)
    (hle : new ≤ p.heap.endOfHeap) :
    HeapInv start { p with heap := ⟨new, roundUp new, p.heap.table⟩ } := by
  have hround := roundUp_eq_pagesUp hle h.end_aligned h.end_lt
  have hend : pagesUp new ≤ p.heap.endOfHeap := pagesUp_le hle h.end_aligned
  refine ⟨h.start_pos, hfloor, ?_, ?_, ?_, ?_, ?_⟩ <;> simp only [hround]
  · exact le_pagesUp new
  · exact pageAligned_pagesUp new
  · exact lt_of_le_of_lt hend h.end_lt
  · intro x hlow hhigh
    exact h.writable x hlow (lt_of_lt_of_le hhigh hend)
  · intro x hlow hhigh
    exact absurd hlow (not_le.2 hhigh)

theorem extend (h : HeapInv start p) {new : Nat} (hlt : p.heap.endOfHeap < new)
    (hword : new < wordSize)
    (hvalid : ValidRange p.heap.endOfHeap (roundUp (new - p.heap.endOfHeap))) :
    HeapInv start (p.extend new hvalid) := by
  rcases extension_reaches h.end_aligned h.end_pos hlt hword hvalid with ⟨hreach, hround, hend⟩
  refine ⟨h.start_pos, le_trans (le_trans h.floor h.le_end) (Nat.le_of_lt hlt), ?_, ?_, ?_, ?_, ?_⟩
    <;> simp only [HeapProc.extend, hround]
  · exact le_pagesUp new
  · exact pageAligned_pagesUp new
  · exact hend
  · intro x hlow hhigh
    rw [AddrSpace.protAt_mapFixed _ hvalid (by decide), hreach]
    by_cases hx : x < p.heap.endOfHeap
    · rw [if_neg (fun hin => absurd hx (not_lt.2 hin.1))]
      exact h.writable x hlow hx
    · exact if_pos ⟨not_lt.1 hx, hhigh⟩
  · intro x hlow hhigh
    exact absurd hlow (not_le.2 hhigh)

/-- Another mapping finds its place outside the heap. -/
theorem mmapAt (h : HeapInv start p) {call : MmapCall} {world : MmapWorld} {data : List UInt8}
    (hvalid : ValidRange world.ret call.length)
    (hfree : p.space.maps.Free world.ret (world.ret + pagesUp call.length))
    (hdata : data.length ≤ pagesUp call.length) :
    HeapInv start (p.mmapAt call world data hvalid) := by
  have hout : ∀ x, start ≤ x → x < p.heap.endOfHeap →
      ¬ (world.ret ≤ x ∧ x < world.ret + pagesUp call.length) := fun x hlow hhigh =>
    AddrSpace.not_mem_of_free hfree (AddrSpace.mem_mappedSet_of_protAt (h.writable x hlow hhigh))
  refine ⟨h.start_pos, h.floor, h.le_end, h.end_aligned, h.end_lt, ?_, ?_⟩
  · intro x hlow hhigh
    have hlookup := (p.space.mapFixed_of_not_mem call.prot hvalid (hout x hlow hhigh)).1
    rw [← h.writable x hlow hhigh]
    exact congrArg (Option.map Mapping.prot) hlookup
  · intro x hlow hhigh
    have hstart : start ≤ x := le_trans h.floor (le_trans (le_pagesUp _) hlow)
    have hnot := hout x hstart hhigh
    have hdataout : ¬ (world.ret ≤ x ∧ x < world.ret + data.length) := by omega
    exact (AddrSpace.bytes_store_of_not_mem _ hdataout).trans
      ((p.space.mapFixed_of_not_mem call.prot hvalid hnot).2.trans (h.zero x hlow hhigh))

theorem store (h : HeapInv start p) {addr : Nat} {data : List UInt8}
    (houtside : addr + data.length ≤ p.heap.curbrk ∨ p.heap.endOfHeap ≤ addr) :
    HeapInv start { p with space := p.space.store addr data } := by
  refine ⟨h.start_pos, h.floor, h.le_end, h.end_aligned, h.end_lt, h.writable, ?_⟩
  intro x hlow hhigh
  have hbrk : p.heap.curbrk ≤ x := le_trans (le_pagesUp _) hlow
  have hout : ¬ (addr ≤ x ∧ x < addr + data.length) := by
    rintro ⟨hfrom, hto⟩
    rcases houtside with hbelow | habove
    · exact absurd (lt_of_lt_of_le hto hbelow) (not_lt.2 hbrk)
    · exact absurd (le_trans habove hfrom) (not_le.2 hhigh)
  exact (AddrSpace.bytes_store_of_not_mem _ hout).trans (h.zero x hlow hhigh)

/-- What a refusal may remove lies behind the heap. -/
theorem refuse (h : HeapInv start p) {k : Kernel} {new : Nat}
    (hrefused : ¬ k.Grants p.space (heapRequest p.heap.endOfHeap new)) :
    HeapInv start (p.refuse k new) := by
  have hpartly := p.refuse_spec k hrefused
  refine ⟨h.start_pos, h.floor, h.le_end, h.end_aligned, h.end_lt, ?_, ?_⟩
  · intro x hlow hhigh
    rw [← h.writable x hlow hhigh]
    exact hpartly.protAt_of_not_mem fun hin => absurd hin.1 (not_le.2 hhigh)
  · intro x hlow hhigh
    rw [hpartly.bytes]
    exact h.zero x hlow hhigh

theorem of_sbrk (h : HeapInv start p) {k : Kernel} {increment : Int} {ret : Nat}
    (hcase : Sbrk k p increment ret q) (hfloor : start ≤ q.heap.curbrk) : HeapInv start q := by
  cases hcase with
  | query _ => exact h
  | overflows _ => exact h
  | within _ _ hle => exact h.within hfloor hle
  | refused _ _ _ hrefused => exact h.refuse hrefused
  | extended _ hword hlt _ hvalid => exact h.extend hlt hword hvalid

theorem step {e : HeapEvent} (h : HeapInv start p) (he : StepAbove start p e q) :
    HeapInv start q := by
  rcases he with ⟨hstep, hfloor⟩
  cases hstep with
  | sbrk brkRet hrange => exact h.of_sbrk (h.sbrk_cases _ brkRet hrange) hfloor
  | mmap _ hvalid hfree hdata => exact h.mmapAt hvalid hfree hdata
  | store houtside => exact h.store houtside

end HeapInv

/-- Past the page without access, a new heap is zeros that can be read and written. -/
theorem NewHeap.inv {start : Nat} {p : HeapProc} (h : NewHeap start p) : HeapInv start p := by
  rcases h with @⟨k, h, space, addr, hvalid, _, _, hp⟩
  rcases createNewHeap_eq k h space hvalid with ⟨table, hnew⟩
  obtain rfl := Option.some.inj (hnew.symm.trans hp)
  have hpages : pagesUp (100 * pageSize) = 100 * pageSize := pagesUp_of_aligned (Nat.dvd_mul_left _ _)
  have hpage : pagesUp pageSize = pageSize := pagesUp_of_aligned (Nat.dvd_refl _)
  have hin : ∀ x, addr + pageSize ≤ x → x < addr + 100 * pageSize →
      addr ≤ x ∧ x < addr + pagesUp (100 * pageSize) := fun x hlow hhigh =>
    ⟨le_trans (Nat.le_add_right _ _) hlow, by simpa [hpages] using hhigh⟩
  refine ⟨Nat.lt_of_lt_of_le (by decide) (Nat.le_add_left _ _), le_rfl,
    Nat.add_le_add_left (by decide) addr, Nat.dvd_add hvalid.aligned (Nat.dvd_mul_left _ _),
    by simpa [hpages] using hvalid.room, ?_, ?_⟩
  · intro x hlow hhigh
    have hnew := AddrSpace.protAt_mapFixed space hvalid
      (show protRead ||| protWrite < 8 by decide) x
    rw [if_pos (hin x hlow hhigh)] at hnew
    -- the call of `mprotect` may fail, and it changes the first page only
    have hafter : ¬ (addr ≤ x ∧ x < addr + pagesUp pageSize) := fun hx =>
      absurd hx.2 (not_lt.2 (by simpa [hpage] using hlow))
    rw [← hnew]
    exact congrArg (Option.map Mapping.prot) (k.lookup_mprotect _ hafter)
  · intro x hlow hhigh
    have hzero := AddrSpace.bytes_mapFixed space (protRead ||| protWrite) hvalid x
    rw [if_pos (hin x (le_trans (le_pagesUp _) hlow) hhigh)] at hzero
    rw [k.bytes_mprotect]
    exact hzero

/-- The invariant holds along every run that keeps the break at its starting value or above. -/
theorem HeapInv.of_run {start : Nat} {p q : HeapProc} {es : List HeapEvent}
    (hnew : NewHeap start p) (hrun : Run (StepAbove start) p es q) : HeapInv start q :=
  hrun.invariant (fun h he => h.step he) hnew.inv

end HeapProc

end CkptRestart
