import CkptRestart.MmapWrapper

/-!
# SbrkWrapper — the heap of the upper half

`sbrk-wrapper.c` keeps the break of the upper half in two statics of the lower half, set up by
`createNewHeapForRtld` of `kernel-loader.c`.  The pages of the heap are upper-half memory and go
into the image; the statics do not, and `main --restore` leaves them as the loader has them.

`continues_iff` says when the first call after a restart goes on from the old break.
-/

namespace CkptRestart

/-! ## The code -/

/-- The statics `__curbrk` and `__endOfHeap`, beside those of the mmap wrapper. -/
structure Heap where
  curbrk : Nat
  endOfHeap : Nat
  table : MmapTable
  deriving DecidableEq, Repr

namespace Heap

/-- The statics of a lower half that has just been loaded. -/
def initial : Heap where
  curbrk := 0
  endOfHeap := 0
  table := .initial

def setEndOfHeap (h : Heap) (addr : Nat) : Heap := { h with endOfHeap := roundUp addr }

def setUhBrk (h : Heap) (addr : Nat) : Heap := { h with curbrk := addr }

end Heap

/-- The mapping that `createNewHeapForRtld` asks for. -/
def newHeapCall : MmapCall :=
  ⟨0, 100 * pageSize, protRead ||| protWrite, mapPrivate ||| mapAnonymous, -1, 0⟩

/-- `createNewHeapForRtld`: the statics after it, or `none` if it returns `NULL`. -/
def createNewHeapForRtld (h : Heap) (w : MmapWorld) : Option Heap :=
  let out := mmapWrapper h.table newHeapCall w
  if out.ret = mapFailed then none
  else
    let h := { h with table := out.table }
    some ((h.setEndOfHeap (wrap (out.ret + 100 * pageSize))).setUhBrk (wrap (out.ret + pageSize)))

/-- What the world answers to one call: the result of `brk(0)` and of a mapping. -/
structure SbrkWorld where
  brkRet : Int
  mmap : MmapWorld
  deriving DecidableEq, Repr

/-- What a call leaves: its result, the `errno` it sets itself, the statics, and the mapping it
asked for. -/
structure SbrkOut where
  ret : Nat
  errno : Option Errno
  heap : Heap
  request : Option MmapCall

/-- The test of `__sbrkWrapper` for a break that would leave the address space. -/
def breakOverflows (oldbrk : Nat) (increment : Int) : Bool :=
  if increment > 0 then decide (wrap (oldbrk + toUnsigned increment) < oldbrk)
  else decide (oldbrk < toUnsigned (-increment))

/-- `(VA)oldbrk + increment` -/
def movedBreak (oldbrk : Nat) (increment : Int) : Nat := wrap (oldbrk + toUnsigned increment)

/-- The mapping that extends a heap ending at `endOfHeap` to `newbrk`. -/
def heapRequest (endOfHeap newbrk : Nat) : MmapCall :=
  ⟨endOfHeap, roundUp (newbrk - endOfHeap), protRead ||| protWrite,
    mapPrivate ||| mapFixed ||| mapAnonymous, -1, 0⟩

/-- `sbrkWrapper`, that is the body `__sbrkWrapper` between the switches of the fs register.  The
static `__curbrk` is not the variable of that name in libc, so `brk(0)` does not set it. -/
def sbrkWrapper (h : Heap) (increment : Int) (w : SbrkWorld) : SbrkOut :=
  if h.curbrk = 0 ∧ w.brkRet < 0 then ⟨mapFailed, none, h, none⟩
  else
    -- the static is still `NULL` when it is copied
    let h := if h.curbrk = 0 then { h with endOfHeap := h.curbrk } else h
    if increment = 0 then ⟨h.curbrk, none, h, none⟩
    else
      let oldbrk := h.curbrk
      let newbrk := movedBreak oldbrk increment
      if breakOverflows oldbrk increment then ⟨mapFailed, some .ENOMEM, h, none⟩
      else if newbrk > h.endOfHeap then
        let call := heapRequest h.endOfHeap newbrk
        let out := mmapWrapper h.table call w.mmap
        if out.ret = mapFailed then ⟨mapFailed, out.errno, { h with table := out.table }, some call⟩
        else ⟨oldbrk, none, ⟨newbrk, roundUp newbrk, out.table⟩, some call⟩
      -- the break moves down, or up within the pages there are
      else ⟨oldbrk, none, ⟨newbrk, roundUp newbrk, h.table⟩, none⟩

/-! ## One call -/

/-- All that a call can do while `brk(0)` does not fail: report the break, fail and leave it, or
move it and return the old one. -/
theorem sbrkWrapper_cases (h : Heap) (k : Int) {w : SbrkWorld} (hbrk : 0 ≤ w.brkRet) :
    (k = 0 ∧ (sbrkWrapper h k w).ret = h.curbrk ∧ (sbrkWrapper h k w).heap.curbrk = h.curbrk) ∨
    (k ≠ 0 ∧ (sbrkWrapper h k w).ret = mapFailed ∧
      (sbrkWrapper h k w).heap.curbrk = h.curbrk) ∨
    (k ≠ 0 ∧ (sbrkWrapper h k w).ret = h.curbrk ∧
      (sbrkWrapper h k w).heap.curbrk = movedBreak h.curbrk k ∧
      (sbrkWrapper h k w).heap.endOfHeap = roundUp (movedBreak h.curbrk k)) := by
  have hbrk' : ¬ (h.curbrk = 0 ∧ w.brkRet < 0) := fun hneg => absurd hneg.2 (not_lt.2 hbrk)
  -- the branch for an unset break changes only the end of the heap
  obtain ⟨g, hg, hbrkg⟩ : ∃ g : Heap,
      g = (if h.curbrk = 0 then { h with endOfHeap := h.curbrk } else h) ∧
        g.curbrk = h.curbrk := by
    refine ⟨_, rfl, ?_⟩
    split <;> rfl
  by_cases hk : k = 0
  · left
    simp [sbrkWrapper, hbrk', hk, ← hg, hbrkg]
  · right
    by_cases hover : breakOverflows h.curbrk k = true
    · left
      simp [sbrkWrapper, hbrk', hk, ← hg, hbrkg, hover]
    · by_cases hgrow : movedBreak h.curbrk k > g.endOfHeap
      · by_cases hmap : (mmapWrapper g.table (heapRequest g.endOfHeap (movedBreak h.curbrk k))
            w.mmap).ret = mapFailed
        · left
          simp [sbrkWrapper, hbrk', hk, ← hg, hbrkg, hover, hgrow, hmap]
        · right
          simp [sbrkWrapper, hbrk', hk, ← hg, hbrkg, hover, hgrow, hmap]
      · right
        simp [sbrkWrapper, hbrk', hk, ← hg, hbrkg, hover, hgrow]

/-- With no break set, a call does the same whatever the other statics are. -/
theorem sbrkWrapper_unset {h r : Heap} (hh : h.curbrk = 0) (hr : r.curbrk = 0) (k : Int)
    (w : SbrkWorld) :
    (sbrkWrapper h k w).request = (sbrkWrapper r k w).request := by
  have hret : ∀ c, (mmapWrapper h.table c w.mmap).ret = (mmapWrapper r.table c w.mmap).ret := by
    intro c
    by_cases hoff : c.offset &&& mmapOffMask = 0 <;> by_cases hw : w.mmap.ret = mapFailed <;>
      simp [mmapWrapper, hoff, hw]
  by_cases hbrk : w.brkRet < 0
  · simp [sbrkWrapper, hh, hr, hbrk]
  · by_cases hk : k = 0
    · simp [sbrkWrapper, hh, hr, hbrk, hk]
    · by_cases hover : breakOverflows 0 k = true
      · simp [sbrkWrapper, hh, hr, hbrk, hk, hover]
      · by_cases hgrow : 0 < movedBreak 0 k
        · by_cases hmap : (mmapWrapper r.table (heapRequest 0 (movedBreak 0 k)) w.mmap).ret =
              mapFailed <;>
            simp [sbrkWrapper, hh, hr, hbrk, hk, hover, hgrow, hret, hmap]
        · simp [sbrkWrapper, hh, hr, hbrk, hk, hover, hgrow]

/-! ## Histories -/

def runSbrks : List (Int × SbrkWorld) → Heap → Heap
  | [], h => h
  | (k, w) :: calls, h => runSbrks calls (sbrkWrapper h k w).heap

/-- The statics at a checkpoint: a new heap, and the calls made since. -/
def heapAtCheckpoint (w : MmapWorld) (calls : List (Int × SbrkWorld)) : Option Heap :=
  (createNewHeapForRtld .initial w).map (runSbrks calls)

/-- The statics after `main --restore`, which records mappings but sets no break. -/
def restartedHeap (table : MmapTable) : Heap := { Heap.initial with table := table }

/-- The first call made with the statics `r` goes on from the break of `h`, as a call made with `h`
does. -/
structure Continues (h r : Heap) : Prop where
  query : ∀ w : SbrkWorld, 0 ≤ w.brkRet → (sbrkWrapper r 0 w).ret = h.curbrk
  extend : ∀ (k : Int) (w : SbrkWorld), 0 ≤ w.brkRet → k ≠ 0 →
    (sbrkWrapper r k w).ret ≠ mapFailed →
      (sbrkWrapper r k w).ret = h.curbrk ∧
      (sbrkWrapper r k w).heap.curbrk = movedBreak h.curbrk k
  request : ∀ (k : Int) (w : SbrkWorld), (sbrkWrapper r k w).request = (sbrkWrapper h k w).request

/-- A run without a restart goes on from its own break. -/
theorem continues_self (h : Heap) : Continues h h where
  query := by
    intro w hbrk
    rcases sbrkWrapper_cases h 0 hbrk with ⟨_, hret, _⟩ | ⟨hk, _⟩ | ⟨hk, _⟩
    · exact hret
    · exact absurd rfl hk
    · exact absurd rfl hk
  extend := by
    intro k w hbrk hk hok
    rcases sbrkWrapper_cases h k hbrk with ⟨hzero, _⟩ | ⟨_, hfail, _⟩ | ⟨_, hret, hmove, _⟩
    · exact absurd hzero hk
    · exact absurd hfail hok
    · exact ⟨hret, hmove⟩
  request := fun _ _ => rfl

/-- After a restart the heap goes on from its old break exactly when that break was `NULL`. -/
theorem continues_iff (w : MmapWorld) (calls : List (Int × SbrkWorld)) (table : MmapTable) :
    (∀ h, heapAtCheckpoint w calls = some h → Continues h (restartedHeap table)) ↔
      ∀ h, heapAtCheckpoint w calls = some h → h.curbrk = 0 := by
  refine forall₂_congr fun h _ => ?_
  constructor
  · intro hcont
    -- what the first call reports is the break of the new statics
    have hquery := hcont.query ⟨0, ⟨0, .ENOMEM, none⟩⟩ le_rfl
    have hself := (continues_self (restartedHeap table)).query ⟨0, ⟨0, .ENOMEM, none⟩⟩ le_rfl
    exact hquery.symm.trans hself
  · intro hzero
    have hself := continues_self (restartedHeap table)
    have hbreak : h.curbrk = (restartedHeap table).curbrk := hzero
    refine ⟨?_, ?_, fun k w => sbrkWrapper_unset rfl hzero k w⟩
    · rw [hbreak]
      exact hself.query
    · rw [hbreak]
      exact hself.extend

/-- A heap of a hundred pages at `0x10000`, checkpointed before any call: after the restart
`sbrk(0)` no longer returns the break. -/
theorem not_continues_newHeap :
    ∃ h, heapAtCheckpoint ⟨0x10000, .ENOMEM, none⟩ [] = some h ∧ h.curbrk = 0x11000 ∧
      ¬ Continues h (restartedHeap .initial) := by
  have hheap : heapAtCheckpoint ⟨0x10000, .ENOMEM, none⟩ [] =
      some ⟨0x11000, 0x74000, MmapTable.initial.track ⟨0x10000, 100 * pageSize⟩⟩ := rfl
  refine ⟨_, hheap, rfl, ?_⟩
  intro hcont
  have hquery := hcont.query ⟨0, ⟨0, .ENOMEM, none⟩⟩ le_rfl
  have hret : (sbrkWrapper (restartedHeap .initial) 0 ⟨0, ⟨0, .ENOMEM, none⟩⟩).ret = 0 := rfl
  rw [hret] at hquery
  exact absurd hquery (by decide)

end CkptRestart
