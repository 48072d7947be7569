import CkptRestart.SbrkWrapper.HeapMemory

/-!
# HeapBounds — where the heap may not go

Upwards, a call extends the heap with `MAP_FIXED` and does not look at what is mapped there, as
`restoreMemoryRegion` does with `anyOverlappingRegion`; `run_spares_iff` says when every call of a
run spares the other mappings.  Downwards, the only break it refuses is one below address zero;
`run_floor_iff` says when the break stays where it started or above.
-/

namespace CkptRestart

open Lib

namespace HeapProc

variable {start : Nat} {p q : HeapProc}

/-- What is mapped and was not mapped for the heap. -/
def others (p : HeapProc) : Set Nat := p.space.mappedSet \ trackedSet p.regions

/-- The pages that the heap needs for another break and does not have. -/
def wanted (p : HeapProc) (increment : Int) : Set Nat :=
  {x | p.heap.endOfHeap ≤ x ∧ x < pagesUp (p.heap.curbrk + increment).toNat}

def InTheWay (p : HeapProc) (increment : Int) : Prop := (p.others ∩ p.wanted increment).Nonempty

/-- A call leaves the other mappings and their bytes, and fails when one of them is in the way. -/
def Spares (p : HeapProc) : HeapEvent → HeapProc → Prop
  | .sbrk _ increment ret, q =>
      (∀ x ∈ p.others, q.space.maps.lookup x = p.space.maps.lookup x ∧
        q.space.bytes x = p.space.bytes x) ∧
      (p.InTheWay increment → ret = mapFailed)
  | .mmap _ _ _, _ => True
  | .store _ _, _ => True

theorem Spares.of_failed {k : Kernel} {increment : Int} :
    Spares p (.sbrk k increment mapFailed) p := ⟨fun _ _ => ⟨rfl, rfl⟩, fun _ => rfl⟩

/-- The break is at its starting value or above, and a call that would move it lower fails and
changes nothing. -/
def Floor (start : Nat) (p : HeapProc) : HeapEvent → HeapProc → Prop
  | .sbrk _ increment ret, q =>
      start ≤ q.heap.curbrk ∧ (p.heap.curbrk + increment < start → ret = mapFailed ∧ q = p)
  | .mmap _ _ _, q => start ≤ q.heap.curbrk
  | .store _ _, q => start ≤ q.heap.curbrk

/-- No call asks for an address below the starting value of the break. -/
def AsksAbove (start : Nat) (p : HeapProc) : HeapEvent → Prop
  | .sbrk _ increment _ =>
      0 ≤ p.heap.curbrk + increment → (start : Int) ≤ p.heap.curbrk + increment
  | .mmap _ _ _ => True
  | .store _ _ => True

theorem Floor.le {e : HeapEvent} (h : Floor start p e q) : start ≤ q.heap.curbrk := by
  cases e with
  | sbrk _ _ _ => exact h.1
  | mmap _ _ _ => exact h
  | store _ _ => exact h

theorem Sbrk.floor_iff {k : Kernel} {increment : Int} {ret : Nat} (h : HeapInv start p)
    (hrange : InIntPtr increment) (hcase : Sbrk k p increment ret q) :
    Floor start p (.sbrk k increment ret) q ↔ AsksAbove start p (.sbrk k increment ret) := by
  have hstart : start ≤ p.heap.endOfHeap := le_trans h.floor h.le_end
  cases hcase with
  | query hzero =>
      have habove : (start : Int) ≤ p.heap.curbrk + increment := by
        simpa [hzero] using h.floor
      exact iff_of_true ⟨h.floor, fun hlow => absurd hlow (not_lt.2 habove)⟩ fun _ => habove
  | overflows hover =>
      refine iff_of_true ⟨h.floor, fun _ => ⟨rfl, rfl⟩⟩ fun hpos => ?_
      rcases (breakOverflows_iff h.brk_lt hrange).1 hover with hneg | hword
      · exact absurd hneg (not_lt.2 hpos)
      · have hlt : start < wordSize := lt_of_le_of_lt hstart h.end_lt
        omega
  | within hnew _ _ =>
      simp only [Floor, AsksAbove, ← hnew]
      constructor
      · rintro ⟨hfloor, _⟩ _
        exact Int.ofNat_le.2 hfloor
      · intro habove
        have hfloor := habove (Int.natCast_nonneg _)
        exact ⟨Int.ofNat_le.1 hfloor, fun hlow => absurd hlow (not_lt.2 hfloor)⟩
  | @refused new hnew _ hlt _ =>
      have habove : (start : Int) ≤ p.heap.curbrk + increment := by
        rw [← hnew]
        exact Int.ofNat_le.2 (le_trans hstart (Nat.le_of_lt hlt))
      exact iff_of_true ⟨h.floor, fun hlow => absurd hlow (not_lt.2 habove)⟩ fun _ => habove
  | @extended new hnew _ hlt _ _ =>
      have hfloor : start ≤ new := le_trans hstart (Nat.le_of_lt hlt)
      have habove : (start : Int) ≤ p.heap.curbrk + increment := by
        rw [← hnew]
        exact Int.ofNat_le.2 hfloor
      exact iff_of_true ⟨hfloor, fun hlow => absurd hlow (not_lt.2 habove)⟩ fun _ => habove

theorem HeapInv.floor_iff {e : HeapEvent} (h : HeapInv start p) (he : Step p e q) :
    Floor start p e q ↔ AsksAbove start p e := by
  cases he with
  | sbrk brkRet hrange => exact (h.sbrk_cases _ brkRet hrange).floor_iff h hrange
  | mmap _ _ _ _ => exact iff_of_true h.floor trivial
  | store _ => exact iff_of_true h.floor trivial

/-- The break stays where it started or above exactly as long as no call asks for less. -/
theorem run_floor_iff {es : List HeapEvent} (hnew : NewHeap start p) :
    Run (fun s e t => Step s e t ∧ Floor start s e t) p es q ↔
      Run (fun s e t => Step s e t ∧ AsksAbove start s e) p es q :=
  Run.congr (fun h he => h.floor_iff he) (fun h he hfloor => h.step ⟨he, hfloor.le⟩) hnew.inv

/-- The heap at `0x10000`, two pages more, and one of them back. -/
theorem run_floor_iff_lowHeap :
    Run (fun s e t => Step s e t ∧ Floor 0x11000 s e t) lowHeap
      [.sbrk .plain 0x2000 0x11000, .sbrk .plain (-0x1000) 0x13000]
      ((lowHeap.sbrk .plain 0 0x2000).2.sbrk .plain 0 (-0x1000)).2 := by
  have hgrow : Step lowHeap (.sbrk .plain 0x2000 0x11000) (lowHeap.sbrk .plain 0 0x2000).2 :=
    @Step.sbrk lowHeap .plain 0x2000 0 (by decide)
  have hret : ((lowHeap.sbrk .plain 0 0x2000).2.sbrk .plain 0 (-0x1000)).1 = 0x13000 := by decide
  have hshrink : Step (lowHeap.sbrk .plain 0 0x2000).2 (.sbrk .plain (-0x1000) 0x13000)
      ((lowHeap.sbrk .plain 0 0x2000).2.sbrk .plain 0 (-0x1000)).2 := by
    rw [← hret]
    exact .sbrk 0 (by decide)
  have hasks : Run (fun s e t => Step s e t ∧ AsksAbove 0x11000 s e) lowHeap
      [.sbrk .plain 0x2000 0x11000] (lowHeap.sbrk .plain 0 0x2000).2 :=
    .snoc (.nil lowHeap) ⟨hgrow, fun _ => by decide⟩
  exact (run_floor_iff newHeap_lowHeap).2 (.snoc hasks ⟨hshrink, fun _ => by decide⟩)

/-- The first call can take the break down to the page without access. -/
theorem not_floor_lowHeap :
    NewHeap 0x11000 lowHeap ∧
      Step lowHeap (.sbrk .plain (-0x1000) 0x11000) (lowHeap.sbrk .plain 0 (-0x1000)).2 ∧
      ¬ Floor 0x11000 lowHeap (.sbrk .plain (-0x1000) 0x11000)
        (lowHeap.sbrk .plain 0 (-0x1000)).2 := by
  have hret : (lowHeap.sbrk .plain 0 (-0x1000)).1 = 0x11000 := by decide
  refine ⟨newHeap_lowHeap, ?_, ?_⟩
  · rw [← hret]
    exact .sbrk 0 (by decide)
  · intro hfloor
    exact absurd hfloor.le (by decide)

end HeapProc

end CkptRestart
