import CkptRestart.SbrkWrapper.HeapMemory

/-!
# HeapRuns — what the program sees of its heap

Runs of `sbrkWrapper` from a new heap, whose break stays at its starting value or above.  The break
is where it started plus all that the successful calls have added (`curbrk_eq`), and so is what the
next call returns (`sbrk_returns`); a call keeps the bytes below the break and adds zeros
(`sbrk_keepsBytes`).
-/

namespace CkptRestart

open Lib

/-! ## The break along a run -/

/-- What an event adds to the break: the increment of a call that succeeds. -/
def HeapEvent.moves : HeapEvent → Int
  | .sbrk _ increment ret => if ret = mapFailed then 0 else increment
  | .mmap _ _ _ => 0
  | .store _ _ => 0

def moved : List HeapEvent → Int
  | [] => 0
  | e :: es => e.moves + moved es

theorem moved_append_singleton (es : List HeapEvent) (e : HeapEvent) :
    moved (es ++ [e]) = moved es + e.moves := by
  induction es with
  | nil => simp [moved]
  | cons d es ih => simp [moved, ih, Int.add_assoc]

namespace HeapProc

variable {start : Nat} {p q : HeapProc}

/-- A call fails and leaves the heap, or returns the old break and adds the increment to it. -/
theorem Sbrk.outcome {k : Kernel} {increment : Int} {ret : Nat} (h : Sbrk k p increment ret q) :
    (ret = mapFailed ∧ q.heap = p.heap) ∨
      (ret = p.heap.curbrk ∧ (q.heap.curbrk : Int) = p.heap.curbrk + increment) := by
  cases h with
  | query hzero =>
      right
      exact ⟨rfl, by simp [hzero]⟩
  | overflows _ => exact .inl ⟨rfl, rfl⟩
  | within hnew _ _ => exact .inr ⟨rfl, hnew⟩
  | refused _ _ _ _ => exact .inl ⟨rfl, rfl⟩
  | extended hnew _ _ _ _ => exact .inr ⟨rfl, hnew⟩

/-- Every event adds to the break what it moves. -/
theorem curbrk_step {e : HeapEvent} (h : HeapInv start p) (he : Step p e q) :
    (q.heap.curbrk : Int) = p.heap.curbrk + e.moves := by
  cases he with
  | mmap _ _ _ _ => simp [HeapEvent.moves, HeapProc.mmapAt]
  | store _ => simp [HeapEvent.moves]
  | @sbrk k increment brkRet hrange =>
      rcases (h.sbrk_cases k brkRet hrange).outcome with ⟨hfail, hsame⟩ | ⟨hret, hmove⟩
      · simp [HeapEvent.moves, hfail, hsame]
      · have hok : (p.sbrk k brkRet increment).1 ≠ mapFailed := by
          rw [hret]
          exact h.brk_ne_mapFailed
        simpa [HeapEvent.moves, hok] using hmove

theorem curbrk_eq {es : List HeapEvent} (hnew : NewHeap start p)
    (hrun : Run (StepAbove start) p es q) : (q.heap.curbrk : Int) = start + moved es := by
  induction hrun with
  | nil =>
      have hbrk : p.heap.curbrk = start := hnew.curbrk
      simp [moved, hbrk]
  | @snoc t u es e hrun he ih =>
      calc
        (u.heap.curbrk : Int) = t.heap.curbrk + e.moves :=
          curbrk_step (HeapInv.of_run hnew hrun) he.1
        _ = start + moved es + e.moves := by rw [ih]
        _ = start + moved (es ++ [e]) := by rw [moved_append_singleton, Int.add_assoc]

/-! ## What a call returns -/

/-- The process after the events `es` on a heap that started at `start`, and its next call: the
call returns `start` and all that was added to it, or fails and leaves the break and the end of the
heap; the pages up to the break are there. -/
structure Sbrks (start : Nat) (es : List HeapEvent) (p : HeapProc) : Prop where
  returns : ∀ (k : Kernel) (brkRet : Int) {increment : Int}, InIntPtr increment →
    (p.sbrk k brkRet increment).1 ≠ mapFailed →
      ((p.sbrk k brkRet increment).1 : Int) = start + moved es
  fails : ∀ (k : Kernel) (brkRet : Int) {increment : Int}, InIntPtr increment →
    (p.sbrk k brkRet increment).1 = mapFailed →
      (p.sbrk k brkRet increment).2.heap.curbrk = p.heap.curbrk ∧
      (p.sbrk k brkRet increment).2.heap.endOfHeap = p.heap.endOfHeap
  le_end : p.heap.curbrk ≤ p.heap.endOfHeap
  end_aligned : PageAligned p.heap.endOfHeap
  writable : ∀ x, start ≤ x → x < pagesUp p.heap.curbrk →
    p.space.protAt x = some (protRead ||| protWrite)

theorem HeapInv.sbrks {es : List HeapEvent} (h : HeapInv start p)
    (hbrk : (p.heap.curbrk : Int) = start + moved es) : Sbrks start es p where
  returns := by
    intro k brkRet increment hrange hok
    rcases (h.sbrk_cases k brkRet hrange).outcome with ⟨hfail, _⟩ | ⟨hret, _⟩
    · exact absurd hfail hok
    · rw [hret]
      exact hbrk
  fails := by
    intro k brkRet increment hrange hfail
    rcases (h.sbrk_cases k brkRet hrange).outcome with ⟨_, hsame⟩ | ⟨hret, _⟩
    · rw [hsame]
      exact ⟨rfl, rfl⟩
    · exact absurd (hret.symm.trans hfail) h.brk_ne_mapFailed
  le_end := h.le_end
  end_aligned := h.end_aligned
  writable := fun x hlow hhigh =>
    h.writable x hlow (lt_of_lt_of_le hhigh (pagesUp_le h.le_end h.end_aligned))

/-- Along every run the calls return where the heap started and all that was added before. -/
theorem sbrk_returns {es : List HeapEvent} (hnew : NewHeap start p)
    (hrun : Run (StepAbove start) p es q) : Sbrks start es q :=
  (HeapInv.of_run hnew hrun).sbrks (curbrk_eq hnew hrun)

/-- A growth past the end of the heap at `0x10000`, after which the heap has a page more. -/
theorem sbrk_returns_lowHeap :
    Sbrks 0x11000 [.sbrk .plain 0x64000 0x11000] (lowHeap.sbrk .plain 0 0x64000).2 := by
  have hstep : Step lowHeap (.sbrk .plain 0x64000 0x11000) (lowHeap.sbrk .plain 0 0x64000).2 :=
    @Step.sbrk lowHeap .plain 0x64000 0 (by decide)
  apply sbrk_returns newHeap_lowHeap
  exact .snoc (.nil lowHeap) ⟨hstep, by decide⟩

/-! ## What a call does to the bytes -/

/-- A call that moves the break of `p` to that of `q` keeps the bytes below both, and what it adds
from the next page on reads as zeros. -/
structure KeepsBytes (p q : HeapProc) : Prop where
  below : ∀ x, x < min p.heap.curbrk q.heap.curbrk → q.space.bytes x = p.space.bytes x
  above : p.heap.curbrk < q.heap.curbrk →
    ∀ x, roundUp p.heap.curbrk ≤ x → x < q.heap.curbrk →
      q.space.protAt x = some (protRead ||| protWrite) ∧ q.space.bytes x = 0

theorem KeepsBytes.refl (p : HeapProc) : KeepsBytes p p where
  below := fun _ _ => rfl
  above := fun hlt => absurd hlt (lt_irrefl _)

theorem KeepsBytes.refuse {k : Kernel} {new : Nat}
    (hrefused : ¬ k.Grants p.space (heapRequest p.heap.endOfHeap new)) :
    KeepsBytes p (p.refuse k new) where
  below := fun x _ => congrFun (p.refuse_spec k hrefused).bytes x
  above := fun hlt => absurd hlt (lt_irrefl _)

namespace HeapInv

/-- What `ROUND_UP` makes of the break is the end of its page. -/
theorem beyond_break (h : HeapInv start p) {x : Nat} (hlow : roundUp p.heap.curbrk ≤ x) :
    pagesUp p.heap.curbrk ≤ x ∧ start ≤ x := by
  have hround := roundUp_eq_pagesUp h.le_end h.end_aligned h.end_lt
  have hbrk : pagesUp p.heap.curbrk ≤ x := by simpa [hround] using hlow
  exact ⟨hbrk, le_trans h.floor (le_trans (le_pagesUp _) hbrk)⟩

/-- Within the pages that there are, nothing changes, and from the page of the break on they hold
zeros. -/
theorem within_keepsBytes (h : HeapInv start p) {new : Nat} (hle : new ≤ p.heap.endOfHeap) :
    KeepsBytes p { p with heap := ⟨new, roundUp new, p.heap.table⟩ } where
  below := fun _ _ => rfl
  above := by
    intro _ x hlow hhigh
    rcases h.beyond_break hlow with ⟨hbrk, hstart⟩
    have hend : x < p.heap.endOfHeap := lt_of_lt_of_le hhigh hle
    exact ⟨h.writable x hstart hend, h.zero x hbrk hend⟩

/-- What is mapped at the end of the heap holds zeros, whatever was there. -/
theorem extend_keepsBytes (h : HeapInv start p) {new : Nat} (hlt : p.heap.endOfHeap < new)
    (hword : new < wordSize)
    (hvalid : ValidRange p.heap.endOfHeap (roundUp (new - p.heap.endOfHeap))) :
    KeepsBytes p (p.extend new hvalid) where
  below := by
    intro x hx
    have hold : x < p.heap.curbrk := lt_of_lt_of_le hx (min_le_left _ _)
    have hout : ¬ p.heap.endOfHeap ≤ x := not_le.2 (lt_of_lt_of_le hold h.le_end)
    exact (p.space.mapFixed_of_not_mem _ hvalid fun hin => hout hin.1).2
  above := by
    intro _ x hlow hhigh
    rcases h.beyond_break hlow with ⟨hbrk, hstart⟩
    rcases extension_reaches h.end_aligned h.end_pos hlt hword hvalid with ⟨hreach, hnew, _⟩
    have hq := h.extend hlt hword hvalid
    refine ⟨hq.writable x hstart (lt_of_lt_of_le hhigh hq.le_end), ?_⟩
    by_cases hx : p.heap.endOfHeap ≤ x
    · have hin : x < p.heap.endOfHeap + pagesUp (roundUp (new - p.heap.endOfHeap)) := by
        rw [hreach]
        exact lt_of_lt_of_le hhigh (le_pagesUp new)
      exact if_pos ⟨hx, hin⟩
    · have hold := h.zero x hbrk (not_le.1 hx)
      exact (p.space.mapFixed_of_not_mem _ hvalid fun hin => hx hin.1).2.trans hold

end HeapInv

theorem Sbrk.keepsBytes {k : Kernel} {increment : Int} {ret : Nat} (h : HeapInv start p)
    (hcase : Sbrk k p increment ret q) : KeepsBytes p q := by
  cases hcase with
  | query _ => exact .refl p
  | overflows _ => exact .refl p
  | within _ _ hle => exact h.within_keepsBytes hle
  | refused _ _ _ hrefused => exact .refuse hrefused
  | extended _ hword hlt _ hvalid => exact h.extend_keepsBytes hlt hword hvalid

/-- From every state reached, a call keeps the bytes of the heap and adds zeros. -/
theorem sbrk_keepsBytes {es : List HeapEvent} (hnew : NewHeap start p)
    (hrun : Run (StepAbove start) p es q) (k : Kernel) (brkRet : Int) {increment : Int}
    (hrange : InIntPtr increment) : KeepsBytes q (q.sbrk k brkRet increment).2 := by
  have h := HeapInv.of_run hnew hrun
  exact (h.sbrk_cases k brkRet hrange).keepsBytes h

/-- The heap at `0x10000` with two pages added, before and after a write to the second, and after
both were given back. -/
def grownHeap : HeapProc := (lowHeap.sbrk .plain 0 0x2000).2

def writtenHeap : HeapProc := { grownHeap with space := grownHeap.space.store 0x12000 [1] }

def releasedHeap : HeapProc := (writtenHeap.sbrk .plain 0 (-0x2000)).2

theorem run_releasedHeap :
    Run (StepAbove 0x11000) lowHeap
      [.sbrk .plain 0x2000 0x11000, .store 0x12000 [1], .sbrk .plain (-0x2000) 0x13000]
      releasedHeap := by
  have hgrow : Step lowHeap (.sbrk .plain 0x2000 0x11000) grownHeap :=
    @Step.sbrk lowHeap .plain 0x2000 0 (by decide)
  have hwrite : Step grownHeap (.store 0x12000 [1]) writtenHeap := .store (by decide)
  have hret : (writtenHeap.sbrk .plain 0 (-0x2000)).1 = 0x13000 := by decide
  have hshrink : Step writtenHeap (.sbrk .plain (-0x2000) 0x13000) releasedHeap := by
    rw [← hret]
    exact .sbrk 0 (by decide)
  have hone : Run (StepAbove 0x11000) lowHeap [.sbrk .plain 0x2000 0x11000] grownHeap :=
    .snoc (.nil lowHeap) ⟨hgrow, by decide⟩
  have htwo : Run (StepAbove 0x11000) lowHeap
      [.sbrk .plain 0x2000 0x11000, .store 0x12000 [1]] writtenHeap :=
    .snoc hone ⟨hwrite, by decide⟩
  exact .snoc htwo ⟨hshrink, by decide⟩

/-- The page that was written to is still mapped when the heap grows over it again. -/
theorem sbrk_keepsBytes_releasedHeap :
    releasedHeap.space.bytes 0x12000 = 1 ∧
      KeepsBytes releasedHeap (releasedHeap.sbrk .plain 0 0x2000).2 := by
  refine ⟨by decide, ?_⟩
  apply sbrk_keepsBytes newHeap_lowHeap run_releasedHeap
  decide

end HeapProc

end CkptRestart
