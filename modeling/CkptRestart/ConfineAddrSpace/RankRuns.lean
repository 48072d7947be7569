import CkptRestart.ConfineAddrSpace
import CkptRestart.SbrkWrapper.HeapMemory

/-!
# RankRuns — what a rank maps while it runs

`confine_addr_space` has booked everything but the window of the rank.  From then on `mmapWrapper`
maps where the kernel finds room, or over what the rank has, and `sbrkWrapper` extends the heap at
its end; what is its own, the rank writes, protects and unmaps.

`run_inWindow_iff` says when all that is recorded for a rank lies in its window.
-/

namespace CkptRestart

open Lib

/-! ## A rank that runs -/

/-- The pages of a region. -/
def MmapInfo.pages (t : MmapInfo) : Set Nat := Set.Ico t.addr (t.addr + pagesUp t.len)

theorem MmapInfo.range_subset_pages (t : MmapInfo) : t.range ⊆ t.pages := by
  intro x hx
  have hle := le_pagesUp t.len
  obtain ⟨hlo, hhi⟩ := MmapInfo.mem_range.1 hx
  exact ⟨hlo, by omega⟩

/-- `munmap`: nothing is mapped in the range any more. -/
def AddrSpace.unmap (s : AddrSpace) (addr len : Nat) (h : ValidRange addr len) : AddrSpace where
  maps := s.maps.modify (fun _ => none) addr (addr + pagesUp len)
  bytes := s.bytes
  aligned := RangeMap.ends_modify s.aligned h.aligned h.aligned_end
  bounded := @RangeMap.ends_modify _ (· < wordSize) _ _ _ _ s.bounded h.start_lt h.room

theorem AddrSpace.mem_mappedSet_unmap {s : AddrSpace} {addr len : Nat} (h : ValidRange addr len)
    {x : Nat} :
    x ∈ (s.unmap addr len h).mappedSet ↔
      x ∈ s.mappedSet ∧ ¬ (addr ≤ x ∧ x < addr + pagesUp len) := by
  rw [mem_mappedSet, unmap, RangeMap.lookup_modify]
  by_cases hx : addr ≤ x ∧ x < addr + pagesUp len <;> simp [hx, mem_mappedSet]

/-- The statics of the lower half, the memory, and the regions that have been recorded, in order. -/
structure RankProc where
  heap : Heap
  space : AddrSpace
  regions : List MmapInfo

inductive RankEvent
  | sbrk (k : Kernel) (increment : Int) (ret : Nat)
  | mmap (call : MmapCall) (world : MmapWorld) (data : List UInt8)
  | munmap (addr len : Nat)
  | mprotect (k : Kernel) (addr len prot : Nat)
  | store (addr : Nat) (data : List UInt8)

namespace RankProc

/-- `sbrkWrapper`, for which all regions are the heap's. -/
def sbrk (k : Kernel) (brkRet : Int) (p : RankProc) (increment : Int) : Nat × RankProc :=
  let out := HeapProc.sbrk k brkRet ⟨p.heap, p.space, p.regions⟩ increment
  (out.1, ⟨out.2.heap, out.2.space, out.2.regions⟩)

/-- `mmapWrapper` when the mapping succeeds, and holds `data` then. -/
def mmap (p : RankProc) (call : MmapCall) (world : MmapWorld) (data : List UInt8)
    (hvalid : ValidRange world.ret call.length) : RankProc where
  heap := { p.heap with table := (mmapWrapper p.heap.table call world).table }
  space := (p.space.mapFixed world.ret call.length call.prot hvalid).store world.ret data
  regions := p.regions ++ (mappedBy call world).toList

/-- It has all pages from `lo` to `hi`. -/
def Owns (p : RankProc) (lo hi : Nat) : Prop :=
  ∀ x, lo ≤ x → x < hi → ∃ t ∈ p.regions, x ∈ t.pages

/-- What a rank does; what `patchLibc` does to a mapping of libc is a change of its protection and
writes. -/
inductive Step : RankProc → RankEvent → RankProc → Prop
  | sbrk {p : RankProc} {k : Kernel} {increment : Int} (brkRet : Int)
      (hrange : InIntPtr increment) :
      Step p (.sbrk k increment (p.sbrk k brkRet increment).1) (p.sbrk k brkRet increment).2
  /-- The kernel chooses a place that is free. -/
  | mmap {p : RankProc} {call : MmapCall} {world : MmapWorld} {data : List UInt8}
      (hflags : call.flags &&& mapFixed = 0) (hoffset : call.offset &&& mmapOffMask = 0)
      (hvalid : ValidRange world.ret call.length)
      (hfree : p.space.maps.Free world.ret (world.ret + pagesUp call.length)) :
      Step p (.mmap call world data) (p.mmap call world data hvalid)
  /-- A segment of a library goes over a part of what is mapped for the library. -/
  | mmapFixed {p : RankProc} {call : MmapCall} {world : MmapWorld} {data : List UInt8}
      (hflags : call.flags &&& mapFixed ≠ 0) (hoffset : call.offset &&& mmapOffMask = 0)
      (hret : world.ret = call.addr) (hvalid : ValidRange world.ret call.length)
      (hown : p.Owns world.ret (world.ret + pagesUp call.length)) :
      Step p (.mmap call world data) (p.mmap call world data hvalid)
  /-- A call that fails is not recorded; with `MAP_FIXED` it may have removed what was in its place. -/
  | mmapFails {p : RankProc} {call : MmapCall} {world : MmapWorld} {data : List UInt8}
      {space : AddrSpace} (hret : world.ret = mapFailed)
      (hpartly : AddrSpace.Partly (fun _ => none) p.space call.addr call.length space)
      (hplace : space = p.space ∨ p.Owns call.addr (call.addr + pagesUp call.length)) :
      Step p (.mmap call world data) { p with space := space }
  | munmap {p : RankProc} {addr len : Nat} (hvalid : ValidRange addr len)
      (hown : p.Owns addr (addr + pagesUp len)) :
      Step p (.munmap addr len) { p with space := p.space.unmap addr len hvalid }
  | mprotect {p : RankProc} (k : Kernel) (addr len prot : Nat) :
      Step p (.mprotect k addr len prot)
        { p with space := (k.mprotect p.space addr len prot).2 }
  | store {p : RankProc} (addr : Nat) (data : List UInt8) :
      Step p (.store addr data) { p with space := p.space.store addr data }

/-- The recorded regions of a call of `mmapWrapper`. -/
theorem regions_mmap {p : RankProc} {call : MmapCall} {world : MmapWorld} {data : List UInt8}
    (hoffset : call.offset &&& mmapOffMask = 0) (hvalid : ValidRange world.ret call.length) :
    (p.mmap call world data hvalid).regions = p.regions ++ [⟨world.ret, call.length⟩] := by
  simp [mmap, mappedBy, hoffset, hvalid.ne_mapFailed]

theorem mem_mappedSet_mmap {p : RankProc} {call : MmapCall} {world : MmapWorld}
    {data : List UInt8} (hvalid : ValidRange world.ret call.length) {x : Nat} :
    x ∈ (p.mmap call world data hvalid).space.mappedSet ↔
      (world.ret ≤ x ∧ x < world.ret + pagesUp call.length) ∨ x ∈ p.space.mappedSet :=
  AddrSpace.mem_mappedSet_mapFixed hvalid

end RankProc

/-- The table has recorded what the list of regions says. -/
def Records (table : MmapTable) (regions : List MmapInfo) : Prop :=
  table.ring = MmapTable.initial.ring.pushAll maxTrack regions

theorem Records.track {table : MmapTable} {regions : List MmapInfo} (h : Records table regions)
    (t : MmapInfo) : Records (table.track t) (regions ++ [t]) := by
  rw [Records, MmapTable.ring_track, h, RingLog.pushAll_append]

theorem Records.mmapWrapper {table : MmapTable} {regions : List MmapInfo}
    (h : Records table regions) (c : MmapCall) (w : MmapWorld) :
    Records (mmapWrapper table c w).table (regions ++ (mappedBy c w).toList) := by
  rcases mmapWrapper_cases table c w with ⟨hmap, _, htable, _⟩ | ⟨r, hmap, _, _, _, htable, _⟩
  · simpa [hmap, htable] using h
  · simpa [hmap, htable] using h.track r

/-- What a checkpoint finds in the table has been recorded. -/
theorem Records.mem {table : MmapTable} {regions : List MmapInfo} (h : Records table regions)
    {t : MmapInfo} (ht : t ∈ mmappedList table) : t ∈ regions := by
  rw [mmappedList_eq_valid, h, RingLog.valid_pushAll MmapTable.initial_inBounds rfl] at ht
  exact List.mem_of_mem_drop ht

/-! ## The place of a rank -/

/-- A rank between the break of the loader and its stack. -/
structure Site where
  rank : Nat
  brk : Nat
  stack : Nat
  brk_le : brk ≤ addrSpaceSize * (rank + 1)
  le_stack : addrSpaceSize * (rank + 2) ≤ stack
  stack_lt : stack < wordSize

/-- In between nothing is free but the window of the rank. -/
structure Closed (site : Site) (s : AddrSpace) : Prop where
  window : ∀ x, site.brk ≤ x → x < site.stack → x ∉ s.mappedSet → x ∈ window site.rank
  stack : site.stack ∈ s.mappedSet

/-- More mappings leave no more free. -/
theorem Closed.mono {site : Site} {s s' : AddrSpace} (h : Closed site s)
    (hmapped : s.mappedSet ⊆ s'.mappedSet) : Closed site s' where
  window := fun x hlo hhi hx => h.window x hlo hhi fun hs => hx (hmapped hs)
  stack := hmapped h.stack

/-- What happens in the window leaves the rest closed. -/
theorem Closed.of_lookup {site : Site} {s s' : AddrSpace} (h : Closed site s)
    (hsame : ∀ x, x ∉ CkptRestart.window site.rank → s'.maps.lookup x = s.maps.lookup x) :
    Closed site s' where
  window := by
    intro x hlo hhi hx
    by_contra hout
    exact hout (h.window x hlo hhi (by rwa [AddrSpace.mem_mappedSet, ← hsame x hout]))
  stack := by
    -- the stack is behind the window
    have hout : site.stack ∉ CkptRestart.window site.rank := fun hwindow => by
      have hle := site.le_stack
      rw [CkptRestart.window, Set.mem_Ico] at hwindow
      omega
    rw [AddrSpace.mem_mappedSet, hsame site.stack hout]
    exact h.stack

theorem Closed.partly {site : Site} {s s' : AddrSpace} (h : Closed site s) {addr len : Nat}
    (hpartly : AddrSpace.Partly (fun _ => none) s addr len s')
    (hin : ∀ x, addr ≤ x → x < addr + pagesUp len → x ∈ CkptRestart.window site.rank) :
    Closed site s' :=
  h.of_lookup fun x hx => hpartly.lookup_of_not_mem fun hrange => hx (hin x hrange.1 hrange.2)

theorem Closed.free_subset_iff {site : Site} {s : AddrSpace} (h : Closed site s) {addr len : Nat}
    (hvalid : ValidRange addr len) (hfree : s.maps.Free addr (addr + pagesUp len)) :
    Set.Ico addr (addr + pagesUp len) ⊆ CkptRestart.window site.rank ↔
      site.brk ≤ addr ∧ addr < site.stack := by
  have hne := hvalid.lt_end
  constructor
  · intro hin
    have hfirst := hin (Set.mem_Ico.2 ⟨le_rfl, hne⟩)
    have hbrk := site.brk_le
    have hstack := site.le_stack
    rw [CkptRestart.window, Set.mem_Ico] at hfirst
    omega
  · rintro ⟨hlo, hhi⟩ x ⟨hxlo, hxhi⟩
    have hunmapped : ∀ y, addr ≤ y → y < addr + pagesUp len → y ∉ s.mappedSet :=
      fun y hylo hyhi hy => AddrSpace.not_mem_of_free hfree hy ⟨hylo, hyhi⟩
    -- the stack is mapped, so the range ends below it
    have hbelow : x < site.stack := by
      by_contra hnot
      exact hunmapped site.stack (by omega) (by omega) h.stack
    exact h.window x (by omega) hbelow (hunmapped x hxlo hxhi)

def InWindow (site : Site) (p : RankProc) : Prop := ∀ t ∈ p.regions, t.pages ⊆ window site.rank

/-- All that is recorded for a rank lies in its window, and around the window nothing is free. -/
structure Enclosed (site : Site) (p : RankProc) : Prop where
  regions : InWindow site p
  closed : Closed site p.space

/-- What stays true of a rank, the break of whose heap was at `start`, as long as all it gets is in its
window. -/
structure RankInv (site : Site) (start : Nat) (p : RankProc) : Prop where
  closed : Closed site p.space
  regions : InWindow site p
  records : Records p.heap.table p.regions
  le_start : addrSpaceSize * (site.rank + 1) ≤ start
  floor : start ≤ p.heap.curbrk
  le_end : p.heap.curbrk ≤ p.heap.endOfHeap
  end_aligned : PageAligned p.heap.endOfHeap
  end_le : p.heap.endOfHeap ≤ addrSpaceSize * (site.rank + 2)

/-- A step that leaves the break of the heap where it started or above. -/
def RankProc.StepAbove (start : Nat) (p : RankProc) (e : RankEvent) (q : RankProc) : Prop :=
  RankProc.Step p e q ∧ start ≤ q.heap.curbrk

/-- The kernel does not make the mapping for a new break, and frees nothing around the window. -/
def RefusesClosed (site : Site) (k : Kernel) (p : RankProc) (new : Nat) : Prop :=
  ¬ k.Grants p.space (heapRequest p.heap.endOfHeap new) ∧
    Closed site (k.mmapFixed p.space (heapRequest p.heap.endOfHeap new)).2

/-- The kernel chooses a place between the two, and the heap does not grow past the window. -/
def Inside (site : Site) (p : RankProc) : RankEvent → Prop
  | .sbrk k increment _ =>
      breakOverflows p.heap.curbrk increment = true ∨
        p.heap.curbrk + increment ≤ (addrSpaceSize * (site.rank + 2) : Nat) ∨
          RefusesClosed site k p (movedBreak p.heap.curbrk increment)
  | .mmap call world _ =>
      world.ret = mapFailed ∨ call.flags &&& mapFixed ≠ 0 ∨
        (site.brk ≤ world.ret ∧ world.ret < site.stack)
  | .munmap _ _ => True
  | .mprotect _ _ _ _ => True
  | .store _ _ => True

section Runs

variable {site : Site} {start : Nat} {p q : RankProc}

/-! ## Mappings -/

theorem inWindow_append {ts : List MmapInfo} (h : InWindow site p)
    (hregions : q.regions = p.regions ++ ts) :
    InWindow site q ↔ ∀ t ∈ ts, t.pages ⊆ window site.rank := by
  simp only [InWindow, hregions, List.mem_append]
  constructor
  · exact fun hq t ht => hq t (.inr ht)
  · exact fun hts t ht => ht.elim (h t) (hts t)

namespace RankInv

theorem brk_pos (h : RankInv site start p) : 0 < p.heap.curbrk := by
  have hstart := h.le_start
  have hfloor := h.floor
  unfold addrSpaceSize at *
  omega

theorem end_lt (h : RankInv site start p) : p.heap.endOfHeap < wordSize :=
  lt_of_le_of_lt (le_trans h.end_le site.le_stack) site.stack_lt

/-- Pages that a rank has are in its window. -/
theorem owns_subset (h : RankInv site start p) {lo hi x : Nat} (hown : p.Owns lo hi) (hlo : lo ≤ x)
    (hhi : x < hi) : x ∈ window site.rank := by
  obtain ⟨t, ht, hx⟩ := hown x hlo hhi
  exact h.regions t ht hx

theorem of_mappedSet (h : RankInv site start p) (hmapped : p.space.mappedSet ⊆ q.space.mappedSet)
    (hregions : InWindow site q) (hrecords : Records q.heap.table q.regions)
    (hfloor : start ≤ q.heap.curbrk) (hle : q.heap.curbrk ≤ q.heap.endOfHeap)
    (haligned : PageAligned q.heap.endOfHeap)
    (hend : q.heap.endOfHeap ≤ addrSpaceSize * (site.rank + 2)) : RankInv site start q :=
  ⟨h.closed.mono hmapped, hregions, hrecords, h.le_start, hfloor, hle, haligned, hend⟩

theorem mmap (h : RankInv site start p) {call : MmapCall} {world : MmapWorld} {data : List UInt8}
    (hvalid : ValidRange world.ret call.length)
    (hin : InWindow site (p.mmap call world data hvalid)) :
    RankInv site start (p.mmap call world data hvalid) := by
  refine h.of_mappedSet (fun x hx => ?_) hin (h.records.mmapWrapper call world) h.floor h.le_end
    h.end_aligned h.end_le
  exact (RankProc.mem_mappedSet_mmap hvalid).2 (.inr hx)

/-- A mapping that fails over pages of the rank frees nothing but these. -/
theorem mmapFails (h : RankInv site start p) {addr len : Nat} {space : AddrSpace}
    (hpartly : AddrSpace.Partly (fun _ => none) p.space addr len space)
    (hplace : space = p.space ∨ p.Owns addr (addr + pagesUp len)) :
    RankInv site start { p with space := space } := by
  rcases hplace with rfl | hown
  · exact h
  refine ⟨h.closed.partly hpartly fun x hlo hhi => h.owns_subset hown hlo hhi, h.regions, h.records,
    h.le_start, h.floor, h.le_end, h.end_aligned, h.end_le⟩

theorem munmap (h : RankInv site start p) {addr len : Nat} (hvalid : ValidRange addr len)
    (hown : p.Owns addr (addr + pagesUp len)) :
    RankInv site start { p with space := p.space.unmap addr len hvalid } := by
  refine ⟨⟨fun x hlo hhi hx => ?_, ?_⟩, h.regions, h.records, h.le_start, h.floor, h.le_end,
    h.end_aligned, h.end_le⟩
  · -- what becomes free has been the rank's
    by_cases hin : addr ≤ x ∧ x < addr + pagesUp len
    · exact h.owns_subset hown hin.1 hin.2
    · exact h.closed.window x hlo hhi fun hxp =>
        hx ((AddrSpace.mem_mappedSet_unmap hvalid).2 ⟨hxp, hin⟩)
  · refine (AddrSpace.mem_mappedSet_unmap hvalid).2 ⟨h.closed.stack, fun hin => ?_⟩
    -- the stack is behind the window
    have hwindow := h.owns_subset hown hin.1 hin.2
    have hstack := site.le_stack
    rw [window, Set.mem_Ico] at hwindow
    omega

theorem mprotect (h : RankInv site start p) (k : Kernel) (addr len prot : Nat) :
    RankInv site start { p with space := (k.mprotect p.space addr len prot).2 } := by
  refine h.of_mappedSet ?_ h.regions h.records h.floor h.le_end h.end_aligned h.end_le
  simp only [Kernel.mappedSet_mprotect, subset_refl]

/-! ## The heap -/

theorem sbrk_cases (h : RankInv site start p) (k : Kernel) (brkRet : Int) {increment : Int}
    (hrange : InIntPtr increment) :
    HeapProc.Sbrk k ⟨p.heap, p.space, p.regions⟩ increment (p.sbrk k brkRet increment).1
      (HeapProc.sbrk k brkRet ⟨p.heap, p.space, p.regions⟩ increment).2 :=
  HeapProc.sbrk_cases k brkRet (Nat.ne_of_gt h.brk_pos) (lt_of_le_of_lt h.le_end h.end_lt) hrange

/-- The pages of an extension reach to the end of the page of the new break. -/
theorem extension (h : RankInv site start p) {new : Nat} (hlt : p.heap.endOfHeap < new)
    (hword : new < wordSize)
    (hvalid : ValidRange p.heap.endOfHeap (roundUp (new - p.heap.endOfHeap))) :
    (⟨p.heap.endOfHeap, roundUp (new - p.heap.endOfHeap)⟩ : MmapInfo).pages =
        Set.Ico p.heap.endOfHeap (pagesUp new) ∧ roundUp new = pagesUp new := by
  obtain ⟨hreach, hround, -⟩ := HeapProc.extension_reaches h.end_aligned
    (lt_of_lt_of_le h.brk_pos h.le_end) hlt hword hvalid
  exact ⟨by rw [MmapInfo.pages, hreach], hround⟩

/-- They are in the window if the new break does not pass its end. -/
theorem extension_iff (h : RankInv site start p) {new : Nat} (hlt : p.heap.endOfHeap < new)
    (hword : new < wordSize)
    (hvalid : ValidRange p.heap.endOfHeap (roundUp (new - p.heap.endOfHeap))) :
    (⟨p.heap.endOfHeap, roundUp (new - p.heap.endOfHeap)⟩ : MmapInfo).pages ⊆ window site.rank ↔
      new ≤ addrSpaceSize * (site.rank + 2) := by
  have hend : PageAligned (addrSpaceSize * (site.rank + 2)) :=
    Nat.dvd_trans (by decide : pageSize ∣ addrSpaceSize) (Nat.dvd_mul_right _ _)
  have hup := le_pagesUp new
  have hlow : addrSpaceSize * (site.rank + 1) ≤ p.heap.endOfHeap :=
    le_trans h.le_start (le_trans h.floor h.le_end)
  rw [(h.extension hlt hword hvalid).1, window, Set.Ico_subset_Ico_iff (by omega)]
  constructor
  · exact fun hin => le_trans hup hin.2
  · exact fun hle => ⟨hlow, pagesUp_le hle hend⟩

/-- A break that is an address is the one the call moves to. -/
theorem movedBreak (h : RankInv site start p) {new : Nat} {increment : Int}
    (hrange : InIntPtr increment)
    (hnew : (new : Int) = p.heap.curbrk + increment) (hword : new < wordSize) :
    ¬ breakOverflows p.heap.curbrk increment = true ∧
      CkptRestart.movedBreak p.heap.curbrk increment = new := by
  have hbrk := lt_of_le_of_lt h.le_end h.end_lt
  have hover : ¬ breakOverflows p.heap.curbrk increment = true := by
    rw [breakOverflows_iff hbrk hrange]
    omega
  exact ⟨hover, Int.ofNat.inj ((movedBreak_eq hbrk hrange hover).trans hnew.symm)⟩

/-- What a refusal may free is in the window if the new break does not pass its end. -/
theorem refuse_closed (h : RankInv site start p) {k : Kernel} {new : Nat}
    (hlt : p.heap.endOfHeap < new) (hword : new < wordSize)
    (hrefused : ¬ k.Grants p.space (heapRequest p.heap.endOfHeap new))
    (hle : new ≤ addrSpaceSize * (site.rank + 2)) :
    Closed site (HeapProc.refuse k ⟨p.heap, p.space, p.regions⟩ new).space := by
  have hpartly := HeapProc.refuse_spec k ⟨p.heap, p.space, p.regions⟩ hrefused
  by_cases hvalid : ValidRange p.heap.endOfHeap (roundUp (new - p.heap.endOfHeap))
  · have hpages := (h.extension_iff hlt hword hvalid).2 hle
    exact h.closed.partly hpartly fun x hlo hhi => hpages ⟨hlo, hhi⟩
  · refine h.closed.mono fun x hx => ?_
    rwa [AddrSpace.mem_mappedSet, hpartly.lookup_of_invalid hvalid]

/-- An extension of the heap is in the window exactly when the new break does not pass its end. -/
theorem sbrk_iff (h : RankInv site start p) {k : Kernel} {increment : Int} {ret : Nat}
    (hrange : InIntPtr increment) {r : HeapProc}
    (hcase : HeapProc.Sbrk k ⟨p.heap, p.space, p.regions⟩ increment ret r) :
    Enclosed site ⟨r.heap, r.space, r.regions⟩ ↔ Inside site p (.sbrk k increment ret) := by
  have hle := h.le_end
  have hend := h.end_le
  have hin : Enclosed site p := ⟨h.regions, h.closed⟩
  cases hcase with
  | query hzero =>
      refine iff_of_true hin (.inr (.inl ?_))
      omega
  | overflows hover => exact iff_of_true hin (.inl hover)
  | within hnew _ hnewle =>
      dsimp only at hnew hnewle
      refine iff_of_true ⟨h.regions, h.closed⟩ (.inr (.inl ?_))
      omega
  | refused hnew hword hlt hrefused =>
      -- no region is added, but something may have been freed
      obtain ⟨hover, rfl⟩ := h.movedBreak hrange hnew hword
      dsimp only at hnew
      constructor
      · rintro ⟨_, hclosed⟩
        exact .inr (.inr ⟨hrefused, hclosed⟩)
      · rintro (hover' | hnewle | hkept)
        · exact absurd hover' hover
        · refine ⟨h.regions, h.refuse_closed hlt hword hrefused ?_⟩
          omega
        · exact ⟨h.regions, hkept.2⟩
  | extended hnew hword hlt hgrants hvalid =>
      -- the one case in which a region is added
      obtain ⟨hover, rfl⟩ := h.movedBreak hrange hnew hword
      have hextension := h.extension_iff hlt hword hvalid
      dsimp only at hnew
      constructor
      · rintro ⟨hwindow, _⟩
        have hpages := (inWindow_append h.regions rfl).1 hwindow _ (List.mem_singleton.2 rfl)
        have hnewle := hextension.1 hpages
        refine .inr (.inl ?_)
        omega
      · rintro (hover' | hnewle | hkept)
        · exact absurd hover' hover
        · have hpages := hextension.2 (by omega)
          refine ⟨(inWindow_append h.regions rfl).2 (List.forall_mem_singleton.2 hpages),
            h.closed.mono fun x hx => ?_⟩
          exact (AddrSpace.mem_mappedSet_mapFixed hvalid).2 (.inr hx)
        · exact absurd hgrants hkept.1

theorem sbrk (h : RankInv site start p) {k : Kernel} {increment : Int} {ret : Nat} {r : HeapProc}
    (hcase : HeapProc.Sbrk k ⟨p.heap, p.space, p.regions⟩ increment ret r)
    (hfloor : start ≤ r.heap.curbrk) (hin : Enclosed site ⟨r.heap, r.space, r.regions⟩) :
    RankInv site start ⟨r.heap, r.space, r.regions⟩ := by
  cases hcase with
  | query _ => exact h
  | overflows _ => exact h
  | @within new hnew _ hle =>
      have hround := roundUp_eq_pagesUp hle h.end_aligned h.end_lt
      refine ⟨h.closed, h.regions, h.records, h.le_start, hfloor, ?_, ?_, ?_⟩ <;> simp only [hround]
      · exact le_pagesUp new
      · exact pageAligned_pagesUp new
      · exact le_trans (pagesUp_le hle h.end_aligned) h.end_le
  | refused _ _ _ _ =>
      exact ⟨hin.closed, h.regions, h.records, h.le_start, h.floor, h.le_end, h.end_aligned, h.end_le⟩
  | @extended new hnew hword hlt _ hvalid =>
      -- the end of the window bounds the extension, and so the new end of the heap
      obtain ⟨hpages, hround⟩ := h.extension hlt hword hvalid
      have hwindow := ((inWindow_append h.regions rfl).1 hin.regions) _ (List.mem_singleton.2 rfl)
      rw [hpages, window, Set.Ico_subset_Ico_iff (lt_of_lt_of_le hlt (le_pagesUp new))] at hwindow
      refine ⟨hin.closed, hin.regions, h.records.track _, h.le_start, hfloor, ?_, ?_, ?_⟩ <;>
        simp only [HeapProc.extend, hround]
      · exact le_pagesUp new
      · exact pageAligned_pagesUp new
      · exact hwindow.2

/-! ## Runs -/

theorem enclosed_iff {e : RankEvent} (h : RankInv site start p) (he : p.StepAbove start e q) :
    Enclosed site q ↔ Inside site p e := by
  obtain ⟨hstep, -⟩ := he
  cases hstep with
  | sbrk brkRet hrange => exact h.sbrk_iff hrange (h.sbrk_cases _ brkRet hrange)
  | @mmap call world data hflags hoffset hvalid hfree =>
      -- what is free between the break and the stack is in the window
      have hregion := inWindow_append h.regions (@RankProc.regions_mmap _ _ _ data hoffset hvalid)
      rw [List.forall_mem_singleton, MmapInfo.pages, h.closed.free_subset_iff hvalid hfree] at hregion
      have hinside : Inside site p (.mmap call world data) ↔
          site.brk ≤ world.ret ∧ world.ret < site.stack := by
        simp [Inside, hflags, hvalid.ne_mapFailed]
      rw [hinside, ← hregion]
      exact ⟨fun hq => hq.regions, fun hq => ⟨hq, (h.mmap hvalid hq).closed⟩⟩
  | @mmapFixed _ _ data hflags hoffset _ hvalid hown =>
      have hregion := inWindow_append h.regions (@RankProc.regions_mmap _ _ _ data hoffset hvalid)
      -- it goes over pages that the rank has
      have hwindow := hregion.2 (List.forall_mem_singleton.2 fun x hx => h.owns_subset hown hx.1 hx.2)
      exact iff_of_true ⟨hwindow, (h.mmap hvalid hwindow).closed⟩ (.inr (.inl hflags))
  | mmapFails hret hpartly hplace =>
      exact iff_of_true ⟨h.regions, (h.mmapFails hpartly hplace).closed⟩ (.inl hret)
  | munmap hvalid hown => exact iff_of_true ⟨h.regions, (h.munmap hvalid hown).closed⟩ trivial
  | mprotect k addr len prot =>
      exact iff_of_true ⟨h.regions, (h.mprotect k addr len prot).closed⟩ trivial
  | store addr data =>
      exact iff_of_true ⟨h.regions, h.closed.mono fun _ hx => hx⟩ trivial

theorem step {e : RankEvent} (h : RankInv site start p) (he : p.StepAbove start e q)
    (hin : Enclosed site q) : RankInv site start q := by
  obtain ⟨hstep, hfloor⟩ := he
  cases hstep with
  | sbrk brkRet hrange => exact h.sbrk (h.sbrk_cases _ brkRet hrange) hfloor hin
  | mmap _ _ hvalid _ => exact h.mmap hvalid hin.regions
  | mmapFixed _ _ _ hvalid _ => exact h.mmap hvalid hin.regions
  | mmapFails _ hpartly hplace => exact h.mmapFails hpartly hplace
  | munmap hvalid hown => exact h.munmap hvalid hown
  | mprotect k addr len prot => exact h.mprotect k addr len prot
  | store addr data =>
      exact h.of_mappedSet (fun _ hx => hx) h.regions h.records h.floor h.le_end h.end_aligned
        h.end_le

end RankInv

/-- All that is recorded for a rank along a run lies in its window, and nothing becomes free around it,
exactly when the kernel chooses no place below the break of the loader or behind the stack, and no
call takes the heap past the end of the window, or frees anything there when it is refused. -/
theorem run_inWindow_iff {es : List RankEvent} (h : RankInv site start p) :
    Run (fun s e t => s.StepAbove start e t ∧ Enclosed site t) p es q ↔
      Run (fun s e t => s.StepAbove start e t ∧ Inside site s e) p es q :=
  Run.congr (fun h he => h.enclosed_iff he) (fun h he hin => h.step he hin) h

theorem valid_append {ts : List MmapInfo} (h : ∀ t ∈ ts, ValidRange t.addr t.len) {u : MmapInfo}
    (hu : ValidRange u.addr u.len) : ∀ t ∈ ts ++ [u], ValidRange t.addr t.len := by
  intro t ht
  rcases List.mem_append.1 ht with ht | ht
  · exact h t ht
  · rwa [List.mem_singleton.1 ht]

/-- An extension of the heap can be mapped. -/
theorem HeapProc.Sbrk.valid {k : Kernel} {h r : HeapProc} {increment : Int} {ret : Nat}
    (hcase : HeapProc.Sbrk k h increment ret r) (hvalid : ∀ t ∈ h.regions, ValidRange t.addr t.len) :
    ∀ t ∈ r.regions, ValidRange t.addr t.len := by
  cases hcase with
  | query _ => exact hvalid
  | overflows _ => exact hvalid
  | within _ _ _ => exact hvalid
  | refused _ _ _ _ => exact hvalid
  | extended _ _ _ _ hextension => exact valid_append hvalid hextension

/-- What is recorded in a step can be mapped, as what has been recorded before. -/
theorem RankInv.step_valid {e : RankEvent} (h : RankInv site start p) (he : p.StepAbove start e q)
    (hvalid : ∀ t ∈ p.regions, ValidRange t.addr t.len) :
    ∀ t ∈ q.regions, ValidRange t.addr t.len := by
  obtain ⟨hstep, -⟩ := he
  cases hstep with
  | sbrk brkRet hrange => exact (h.sbrk_cases _ brkRet hrange).valid hvalid
  | mmap _ hoffset hret _ =>
      rw [RankProc.regions_mmap hoffset hret]
      exact valid_append hvalid hret
  | mmapFixed _ hoffset _ hret _ =>
      rw [RankProc.regions_mmap hoffset hret]
      exact valid_append hvalid hret
  | mmapFails _ _ _ => exact hvalid
  | munmap _ _ => exact hvalid
  | mprotect _ _ _ _ => exact hvalid
  | store _ _ => exact hvalid

/-- After such a run a checkpoint finds nothing outside the window. -/
theorem RankInv.of_run {es : List RankEvent} (h : RankInv site start p)
    (hrun : Run (fun s e t => s.StepAbove start e t ∧ Inside site s e) p es q) : RankInv site start q :=
  Run.invariant (fun hinv he => hinv.step he.1 ((hinv.enclosed_iff he.1).2 he.2)) hrun h

theorem RankInv.valid_of_run {es : List RankEvent} (h : RankInv site start p)
    (hvalid : ∀ t ∈ p.regions, ValidRange t.addr t.len)
    (hrun : Run (fun s e t => s.StepAbove start e t ∧ Inside site s e) p es q) :
    ∀ t ∈ q.regions, ValidRange t.addr t.len := by
  have hinv := @Run.invariant _ _ (fun s e t => s.StepAbove start e t ∧ Inside site s e)
    (fun s => RankInv site start s ∧ ∀ t ∈ s.regions, ValidRange t.addr t.len)
    (fun hinv he => ⟨hinv.1.step he.1 ((hinv.1.enclosed_iff he.1).2 he.2),
      hinv.1.step_valid he.1 hinv.2⟩) _ _ _ hrun ⟨h, hvalid⟩
  exact hinv.2

theorem RankInv.listed (h : RankInv site start p) {t : MmapInfo}
    (ht : t ∈ mmappedList p.heap.table) : t.range ⊆ window site.rank :=
  t.range_subset_pages.trans (h.regions t (h.records.mem ht))

end Runs

/-! ## A rank with a heap -/

def siteZero : Site where
  rank := 0
  brk := 0x2000000
  stack := 0x7fff10000000
  brk_le := by decide
  le_stack := by decide
  stack_lt := by decide

/-- What is booked in front of the window and, up to the end of the stack, behind it; and a heap at the
start of the window. -/
def rankZero : RankProc where
  heap :=
    { curbrk := 0x100001000
      endOfHeap := 0x100064000
      table := MmapTable.initial.track ⟨0x100000000, 100 * pageSize⟩ }
  space :=
    { maps := ⟨[⟨0x2000000, 0x100000000, AddrSpace.anonymous protNone⟩,
        ⟨0x100000000, 0x100064000, AddrSpace.anonymous (protRead ||| protWrite)⟩,
        ⟨0x200000000, 0x7fff10021000, AddrSpace.anonymous protNone⟩], by decide, by decide⟩
      bytes := fun _ => 0
      aligned := by decide
      bounded := by decide }
  regions := [⟨0x100000000, 100 * pageSize⟩]

theorem rankInv_rankZero : RankInv siteZero 0x100001000 rankZero where
  closed := by
    have hmapped : ∀ x, ∀ g ∈ rankZero.space.maps.segs, g.Has x → x ∈ rankZero.space.mappedSet := by
      intro x g hg hx
      rw [AddrSpace.mem_mappedSet, RangeMap.lookup_eq_some_iff.2 ⟨g, hg, hx, rfl⟩]
      exact Option.some_ne_none _
    refine ⟨fun x hlo hhi hx => ?_, ?_⟩
    · have hfront := mt (hmapped x ⟨0x2000000, 0x100000000, _⟩ List.mem_cons_self) hx
      have hbehind := mt (hmapped x ⟨0x200000000, 0x7fff10021000, AddrSpace.anonymous protNone⟩
        (by simp [rankZero])) hx
      simp only [Seg.Has, siteZero] at hfront hbehind hlo hhi
      simp only [window, siteZero, Set.mem_Ico]
      unfold addrSpaceSize
      omega
    · exact hmapped _ ⟨0x200000000, 0x7fff10021000, AddrSpace.anonymous protNone⟩
        (by simp [rankZero]) (by decide)
  regions := by
    intro t ht
    obtain rfl := List.mem_singleton.1 ht
    exact Set.Ico_subset_Ico (by decide) (by decide)
  records := rfl
  le_start := by decide
  floor := le_rfl
  le_end := by decide
  end_aligned := by decide
  end_le := by decide

def pageCall : MmapCall :=
  ⟨0, pageSize, protRead ||| protWrite, mapPrivate ||| mapAnonymous, -1, 0⟩

/-- It with a page that the kernel has placed in the window. -/
def rankZeroPaged : RankProc :=
  rankZero.mmap pageCall ⟨0x140000000, .EINVAL, none⟩ [1] (by decide)

/-- The page, and a call that extends the heap. -/
theorem run_inWindow_iff_rankZero :
    Run (fun s e t => s.StepAbove 0x100001000 e t ∧ Enclosed siteZero t) rankZero
      [.mmap pageCall ⟨0x140000000, .EINVAL, none⟩ [1], .sbrk .plain 0x64000 0x100001000]
      (rankZeroPaged.sbrk .plain 0 0x64000).2 := by
  have hmmap : RankProc.Step rankZero (.mmap pageCall ⟨0x140000000, .EINVAL, none⟩ [1])
      rankZeroPaged := .mmap (by decide) (by decide) (by decide) (by decide)
  have hsbrk := @RankProc.Step.sbrk rankZeroPaged .plain 0x64000 0 (by decide)
  have hret : (rankZeroPaged.sbrk .plain 0 0x64000).1 = 0x100001000 := by decide
  rw [hret] at hsbrk
  exact (run_inWindow_iff rankInv_rankZero).2 (.snoc (.snoc (.nil _)
    ⟨⟨hmmap, by decide⟩, .inr (.inr (by decide))⟩) ⟨⟨hsbrk, by decide⟩, .inr (.inl (by decide))⟩)

end CkptRestart
