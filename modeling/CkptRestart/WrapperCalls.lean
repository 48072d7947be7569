import CkptRestart.MemCkpt.FsSwitch
import CkptRestart.SbrkWrapper
import Mathlib.Logic.Function.Basic

/-!
# WrapperCalls — what a wrapper leaves to its caller

The bodies of the wrappers run between `JUMP_TO_LOWER_HALF` and `RETURN_TO_UPPER_HALF` of `common.h`.
The fs register selects the block of thread-local variables, and `errno` is one of them.

`runCalls_givesBack` says of every tree of calls that each of them gives the register back, and
`tellsReason_iff` in which calls that fail the upper half finds the reason in its `errno`.
-/

namespace CkptRestart
namespace WrapperCalls

open Lib FsSwitch

/-! ## The code -/

/-- What can be seen of the register: a body runs with it, a call returns. -/
inductive Event
  | body (w : Wrapper) (fs : Nat)
  | returned (w : Wrapper) (entry exit : Nat)
  deriving DecidableEq, Repr

/-- The fs register, `errno` in each block, the lower half's statics, and what has been seen. -/
structure Thread where
  fs : Nat
  errno : Nat → Option Errno
  heap : Heap
  log : List Event

namespace Thread

/-- `errno = e`, if there is an error. -/
def setErrno (t : Thread) : Option Errno → Thread
  | none => t
  | some e => { t with errno := Function.update t.errno t.fs (some e) }

/-- The `errno` that the running code reads. -/
def readErrno (t : Thread) : Option Errno := t.errno t.fs

def see (t : Thread) (e : Event) : Thread := { t with log := t.log ++ [e] }

@[simp] theorem fs_setErrno (t : Thread) (e : Option Errno) : (t.setErrno e).fs = t.fs := by
  cases e <;> rfl

@[simp] theorem log_setErrno (t : Thread) (e : Option Errno) : (t.setErrno e).log = t.log := by
  cases e <;> rfl

@[simp] theorem heap_setErrno (t : Thread) (e : Option Errno) : (t.setErrno e).heap = t.heap := by
  cases e <;> rfl

end Thread

/-- `JUMP_TO_LOWER_HALF`: the local variable `upperHalfFs`, and the register. -/
def jumpToLowerHalf (lhFs : Nat) (t : Thread) : Nat × Thread :=
  (t.fs, if lhFs > 0 then { t with fs := lhFs } else t)

def returnToUpperHalf (upperHalfFs : Nat) (t : Thread) : Thread := { t with fs := upperHalfFs }

/-- A call of a wrapper: its body, between the two macros. -/
def callWrapper {α : Type} (lhFs : Nat) (w : Wrapper) (body : Thread → α × Thread) (t : Thread) :
    α × Thread :=
  let (upperHalfFs, t₁) := jumpToLowerHalf lhFs t
  let (ret, t₂) := body (t₁.see (.body w t₁.fs))
  let t₃ := returnToUpperHalf upperHalfFs (t₂.see (.body w t₂.fs))
  (ret, t₃.see (.returned w t.fs t₃.fs))

/-- `__mmapWrapper` -/
def mmapBody (c : MmapCall) (w : MmapWorld) (t : Thread) : Nat × Thread :=
  let out := mmapWrapper t.heap.table c w
  let t := { t with heap := { t.heap with table := out.table } }
  (out.ret, t.setErrno out.errno)

/-- The two assignments that move the break. -/
def Thread.moveBreak (t : Thread) (newbrk : Nat) : Thread :=
  { t with heap := ⟨newbrk, roundUp newbrk, t.heap.table⟩ }

/-- `__endOfHeap = __curbrk`, for a break that has not been set. -/
def Thread.startHeap (t : Thread) : Thread :=
  if t.heap.curbrk = 0 then { t with heap := { t.heap with endOfHeap := t.heap.curbrk } } else t

/-- `__sbrkWrapper` behind the question for the break; a mapping goes through `mmapWrapper` again. -/
def sbrkFrom (lhFs : Nat) (increment : Int) (w : SbrkWorld) (t : Thread) : Nat × Thread :=
  if increment = 0 then (t.heap.curbrk, t)
  else
    let oldbrk := t.heap.curbrk
    let newbrk := movedBreak oldbrk increment
    if breakOverflows oldbrk increment then (mapFailed, t.setErrno (some .ENOMEM))
    else if newbrk > t.heap.endOfHeap then
      let (ret, t) :=
        callWrapper lhFs .mmap (mmapBody (heapRequest t.heap.endOfHeap newbrk) w.mmap) t
      let t := t.see (.body .sbrk t.fs)
      if ret = mapFailed then (mapFailed, t) else (oldbrk, t.moveBreak newbrk)
    else (oldbrk, t.moveBreak newbrk)

/-- `__sbrkWrapper`; `brk` fails with `ENOMEM`. -/
def sbrkBody (lhFs : Nat) (increment : Int) (w : SbrkWorld) (t : Thread) : Nat × Thread :=
  if t.heap.curbrk = 0 ∧ w.brkRet < 0 then (mapFailed, t.setErrno (some .ENOMEM))
  else sbrkFrom lhFs increment w t.startHeap

/-- Calls one after the other, with those that the code of each of them makes in the lower half. -/
inductive Calls
  | done
  | mpi (fnc : MpiFnc) (inside next : Calls)
  | mmap (c : MmapCall) (w : MmapWorld) (inside next : Calls)
  | sbrk (increment : Int) (w : SbrkWorld) (inside next : Calls)

/-- The body of `caller`, if there is one, goes on. -/
def Thread.resume (caller : Option Wrapper) (t : Thread) : Thread :=
  match caller with
  | none => t
  | some w => t.see (.body w t.fs)

def runCalls (lhFs : Nat) : Option Wrapper → Calls → Thread → Thread
  | _, .done, t => t
  | caller, .mpi fnc inside next, t =>
      let w : Wrapper := .mpi fnc
      let (_, t) := callWrapper lhFs w (fun t => ((), runCalls lhFs (some w) inside t)) t
      runCalls lhFs caller next (t.resume caller)
  | caller, .mmap c w inside next, t =>
      let (_, t) :=
        callWrapper lhFs .mmap (fun t => mmapBody c w (runCalls lhFs (some .mmap) inside t)) t
      runCalls lhFs caller next (t.resume caller)
  | caller, .sbrk increment w inside next, t =>
      let (_, t) := callWrapper lhFs .sbrk
        (fun t => sbrkBody lhFs increment w (runCalls lhFs (some .sbrk) inside t)) t
      runCalls lhFs caller next (t.resume caller)

/-! ## The register -/

/-- A body runs with the lower half's register, if there is one; a call returns with the register that
it was entered with. -/
def Right (lhFs : Nat) : Event → Prop
  | .body _ fs => lhFs ≠ 0 → fs = lhFs
  | .returned _ entry exit => exit = entry

/-- What code leaves that gives the register back: nothing wrong has been seen since. -/
structure Keeps (lhFs : Nat) (t t' : Thread) : Prop where
  fs : t'.fs = t.fs
  right : (∀ e ∈ t.log, Right lhFs e) → ∀ e ∈ t'.log, Right lhFs e

namespace Keeps

variable {lhFs : Nat} {t t₁ t₂ : Thread}

theorem refl (lhFs : Nat) (t : Thread) : Keeps lhFs t t := ⟨rfl, id⟩

theorem trans (h₁ : Keeps lhFs t t₁) (h₂ : Keeps lhFs t₁ t₂) : Keeps lhFs t t₂ :=
  ⟨h₂.fs.trans h₁.fs, fun h => h₂.right (h₁.right h)⟩

/-- Code that does not touch the register, and of which nothing is seen. -/
theorem of_eq (hfs : t₁.fs = t.fs) (hlog : t₁.log = t.log) : Keeps lhFs t t₁ :=
  ⟨hfs, fun h => hlog ▸ h⟩

theorem see {e : Event} (he : Right lhFs e) : Keeps lhFs t (t.see e) := by
  refine ⟨rfl, fun h d hd => ?_⟩
  rcases List.mem_append.1 hd with hd | hd
  · exact h d hd
  · rw [List.mem_singleton.1 hd]
    exact he

end Keeps

/-- The register between the macros. -/
def lowerFs (lhFs fs : Nat) : Nat := if lhFs > 0 then lhFs else fs

theorem fs_jumpToLowerHalf (lhFs : Nat) (t : Thread) :
    (jumpToLowerHalf lhFs t).2 = { t with fs := lowerFs lhFs t.fs } := by
  unfold jumpToLowerHalf lowerFs
  split <;> rfl

theorem lowerFs_eq {lhFs fs : Nat} (h : lhFs ≠ 0) : lowerFs lhFs fs = lhFs :=
  if_pos (Nat.pos_of_ne_zero h)

section Register

variable {α : Type} {lhFs : Nat}

/-- A body that keeps the lower half's register makes a wrapper that keeps its caller's. -/
theorem keeps_callWrapper (w : Wrapper) {body : Thread → α × Thread}
    (hbody : ∀ t, (lhFs ≠ 0 → t.fs = lhFs) → Keeps lhFs t (body t).2) (t : Thread) :
    Keeps lhFs t (callWrapper lhFs w body t).2 := by
  let t₁ := (jumpToLowerHalf lhFs t).2
  have hfs : t₁.fs = lowerFs lhFs t.fs := congrArg Thread.fs (fs_jumpToLowerHalf lhFs t)
  have hlog : t₁.log = t.log := (congrArg Thread.log (fs_jumpToLowerHalf lhFs t) :)
  have hlower : lhFs ≠ 0 → t₁.fs = lhFs := fun hne => hfs.trans (lowerFs_eq hne)
  -- up to the end of the body the register is the lower half's
  have hinside := (Keeps.see (t := t₁) (e := .body w t₁.fs) hlower).trans
    (hbody (t₁.see (.body w t₁.fs)) hlower)
  have hend : lhFs ≠ 0 → (body (t₁.see (.body w t₁.fs))).2.fs = lhFs :=
    fun hne => hinside.fs.trans (hlower hne)
  have hseen := hinside.trans (.see (e := .body w (body (t₁.see (.body w t₁.fs))).2.fs) hend)
  refine ⟨rfl, fun h e he => ?_⟩
  rcases List.mem_append.1 he with he | he
  · exact hseen.right (hlog ▸ h) e he
  · rw [List.mem_singleton.1 he]
    exact rfl

theorem keeps_mmapBody (c : MmapCall) (w : MmapWorld) (t : Thread) :
    Keeps lhFs t (mmapBody c w t).2 := by
  exact .of_eq (Thread.fs_setErrno _ _) (Thread.log_setErrno _ _)

theorem keeps_startHeap (t : Thread) : Keeps lhFs t t.startHeap := by
  unfold Thread.startHeap
  split
  · exact .of_eq rfl rfl
  · exact .refl lhFs t

theorem keeps_sbrkFrom (increment : Int) (w : SbrkWorld) {t : Thread}
    (ht : lhFs ≠ 0 → t.fs = lhFs) : Keeps lhFs t (sbrkFrom lhFs increment w t).2 := by
  unfold sbrkFrom
  split
  · exact .refl lhFs t
  · extract_lets oldbrk newbrk
    split
    · exact .of_eq (Thread.fs_setErrno _ _) (Thread.log_setErrno _ _)
    · split
      · -- the nested call gives back the lower half's register
        have hcall := @keeps_callWrapper _ lhFs .mmap
          (mmapBody (heapRequest t.heap.endOfHeap newbrk) w.mmap)
          (fun u _ => keeps_mmapBody _ w.mmap u) t
        cases hrun : callWrapper lhFs .mmap
            (mmapBody (heapRequest t.heap.endOfHeap newbrk) w.mmap) t with
        | mk ret t₁ =>
            rw [hrun] at hcall
            have hback : Keeps lhFs t (t₁.see (.body .sbrk t₁.fs)) :=
              hcall.trans (.see fun hne => hcall.fs.trans (ht hne))
            simp only
            split
            · exact hback
            · exact hback.trans (.of_eq rfl rfl)
      · exact .of_eq rfl rfl

theorem keeps_sbrkBody (increment : Int) (w : SbrkWorld) {t : Thread}
    (ht : lhFs ≠ 0 → t.fs = lhFs) : Keeps lhFs t (sbrkBody lhFs increment w t).2 := by
  unfold sbrkBody
  split
  · exact .of_eq (Thread.fs_setErrno _ _) (Thread.log_setErrno _ _)
  · have hstart := @keeps_startHeap lhFs t
    exact hstart.trans (keeps_sbrkFrom increment w fun hne => hstart.fs.trans (ht hne))

theorem keeps_resume {caller : Option Wrapper} {t : Thread}
    (ht : caller ≠ none → lhFs ≠ 0 → t.fs = lhFs) : Keeps lhFs t (t.resume caller) := by
  cases caller with
  | none => exact .refl lhFs t
  | some w => exact .see (ht (Option.some_ne_none w))

/-- After a call its caller goes on, and then come the calls behind it. -/
theorem keeps_next {caller : Option Wrapper} {t t₁ : Thread}
    (ht : caller ≠ none → lhFs ≠ 0 → t.fs = lhFs) (hcall : Keeps lhFs t t₁) {next : Thread → Thread}
    (hnext : ∀ u, (caller ≠ none → lhFs ≠ 0 → u.fs = lhFs) → Keeps lhFs u (next u)) :
    Keeps lhFs t (next (t₁.resume caller)) := by
  have ht₁ : caller ≠ none → lhFs ≠ 0 → t₁.fs = lhFs :=
    fun hcaller hne => hcall.fs.trans (ht hcaller hne)
  have hresume := keeps_resume ht₁
  refine (hcall.trans hresume).trans (hnext _ fun hcaller hne => ?_)
  exact hresume.fs.trans (ht₁ hcaller hne)

/-- By induction on the tree: inside a body the register is the lower half's. -/
theorem keeps_runCalls (calls : Calls) (caller : Option Wrapper) (t : Thread)
    (ht : caller ≠ none → lhFs ≠ 0 → t.fs = lhFs) : Keeps lhFs t (runCalls lhFs caller calls t) := by
  induction calls generalizing caller t with
  | done => exact .refl lhFs t
  | mpi fnc inside next ihInside ihNext =>
      have hcall := @keeps_callWrapper _ lhFs (.mpi fnc)
        (fun u => ((), runCalls lhFs (some (.mpi fnc)) inside u))
        (fun u hu => ihInside _ u fun _ => hu) t
      exact keeps_next ht hcall fun u hu => ihNext caller u hu
  | mmap c w inside next ihInside ihNext =>
      have hcall := @keeps_callWrapper _ lhFs .mmap
        (fun u => mmapBody c w (runCalls lhFs (some .mmap) inside u))
        (fun u hu => (ihInside _ u fun _ => hu).trans (keeps_mmapBody c w _)) t
      exact keeps_next ht hcall fun u hu => ihNext caller u hu
  | sbrk increment w inside next ihInside ihNext =>
      have hbody : ∀ u, (lhFs ≠ 0 → u.fs = lhFs) →
          Keeps lhFs u (sbrkBody lhFs increment w (runCalls lhFs (some .sbrk) inside u)).2 := by
        intro u hu
        have hinside := ihInside (some .sbrk) u fun _ => hu
        exact hinside.trans (keeps_sbrkBody increment w fun hne => hinside.fs.trans (hu hne))
      have hcall := @keeps_callWrapper _ lhFs .sbrk
        (fun u => sbrkBody lhFs increment w (runCalls lhFs (some .sbrk) inside u)) hbody t
      exact keeps_next ht hcall fun u hu => ihNext caller u hu

end Register

/-- The register is always given back, and with one of its own the lower half runs with no other. -/
theorem runCalls_givesBack (lhFs upperFs : Nat) (errno : Nat → Option Errno) (heap : Heap)
    (calls : Calls) :
    (runCalls lhFs none calls ⟨upperFs, errno, heap, []⟩).fs = upperFs ∧
      ∀ e ∈ (runCalls lhFs none calls ⟨upperFs, errno, heap, []⟩).log, Right lhFs e := by
  have hkeeps := @keeps_runCalls lhFs calls none ⟨upperFs, errno, heap, []⟩
    fun hnone => absurd rfl hnone
  exact ⟨hkeeps.fs, hkeeps.right fun d hd => absurd hd List.not_mem_nil⟩

/-- A send for which the heap grows. -/
example :
    (runCalls 0x5000 none
      (.mpi .Send (.sbrk 0x1000 ⟨0, ⟨0x10000, .EINVAL, none⟩⟩ .done .done) .done)
      ⟨0x7000, fun _ => none, ⟨0x10000, 0x10000, .initial⟩, []⟩).log =
      [.body (.mpi .Send) 0x5000, .body .sbrk 0x5000, .body .mmap 0x5000, .body .mmap 0x5000,
        .returned .mmap 0x5000 0x5000, .body .sbrk 0x5000, .body .sbrk 0x5000,
        .returned .sbrk 0x5000 0x5000, .body (.mpi .Send) 0x5000, .body (.mpi .Send) 0x5000,
        .returned (.mpi .Send) 0x7000 0x7000] := by decide +kernel

/-! ## Errors -/

/-- A call of one of the two wrappers that the upper half uses for its memory. -/
inductive HeapCall
  | mmap (c : MmapCall) (w : MmapWorld)
  | sbrk (increment : Int) (w : SbrkWorld)

namespace HeapCall

def run (lhFs : Nat) : HeapCall → Thread → Nat × Thread
  | .mmap c w, t => callWrapper lhFs .mmap (mmapBody c w) t
  | .sbrk increment w, t => callWrapper lhFs .sbrk (sbrkBody lhFs increment w) t

/-- What the call returns. -/
def ret (h : Heap) : HeapCall → Nat
  | .mmap c w => (mmapWrapper h.table c w).ret
  | .sbrk increment w => (sbrkWrapper h increment w).ret

/-- Why the call fails, if it does. -/
def reason (h : Heap) : HeapCall → Option Errno
  | .mmap c w => (mmapWrapper h.table c w).errno
  | .sbrk increment w =>
      if h.curbrk = 0 ∧ w.brkRet < 0 then some .ENOMEM else (sbrkWrapper h increment w).errno

end HeapCall

/-- The thread at the start of a body. -/
def Thread.enter (lhFs : Nat) (w : Wrapper) (t : Thread) : Thread :=
  (jumpToLowerHalf lhFs t).2.see (.body w (jumpToLowerHalf lhFs t).2.fs)

section Errors

variable {α : Type} (lhFs : Nat)

theorem callWrapper_spec (w : Wrapper) (body : Thread → α × Thread) (t : Thread) :
    (callWrapper lhFs w body t).1 = (body (t.enter lhFs w)).1 ∧
      (callWrapper lhFs w body t).2.fs = t.fs ∧
      (callWrapper lhFs w body t).2.errno = (body (t.enter lhFs w)).2.errno ∧
      (callWrapper lhFs w body t).2.heap = (body (t.enter lhFs w)).2.heap :=
  ⟨rfl, rfl, rfl, rfl⟩

theorem enter_spec (w : Wrapper) (t : Thread) :
    (t.enter lhFs w).fs = lowerFs lhFs t.fs ∧ (t.enter lhFs w).errno = t.errno ∧
      (t.enter lhFs w).heap = t.heap := by
  simp [Thread.enter, Thread.see, fs_jumpToLowerHalf]

theorem lowerFs_lowerFs (fs : Nat) : lowerFs lhFs (lowerFs lhFs fs) = lowerFs lhFs fs := by
  unfold lowerFs
  split <;> rfl

theorem errno_setErrno_congr {t u : Thread} (e : Option Errno) (hfs : t.fs = u.fs)
    (herrno : t.errno = u.errno) : (t.setErrno e).errno = (u.setErrno e).errno := by
  cases e with
  | none => exact herrno
  | some e => simp only [Thread.setErrno, hfs, herrno]

/-- What the body sets `errno` to is left in the block of the lower half. -/
theorem mmapBody_spec (c : MmapCall) (w : MmapWorld) (t : Thread) :
    (mmapBody c w t).1 = (mmapWrapper t.heap.table c w).ret ∧
      (mmapBody c w t).2.errno = (t.setErrno (mmapWrapper t.heap.table c w).errno).errno ∧
      (mmapBody c w t).2.heap = { t.heap with table := (mmapWrapper t.heap.table c w).table } := by
  exact ⟨rfl, errno_setErrno_congr _ rfl rfl, Thread.heap_setErrno _ _⟩

theorem mmapWrapper_errno_iff (table : MmapTable) (c : MmapCall) (w : MmapWorld) :
    (mmapWrapper table c w).errno = none ↔ (mmapWrapper table c w).ret ≠ mapFailed := by
  by_cases hoff : c.offset &&& mmapOffMask = 0
  · by_cases hret : w.ret = mapFailed
    · simp [mmapWrapper, hoff, hret]
    · simp [mmapWrapper, hoff, hret]
  · simp [mmapWrapper, hoff]

/-- From a body, `mmapWrapper` leaves `errno` in the block that the body reads. -/
theorem callMmap_spec (c : MmapCall) (w : MmapWorld) {t : Thread} (hfs : lowerFs lhFs t.fs = t.fs) :
    ∃ t', callWrapper lhFs .mmap (mmapBody c w) t = ((mmapWrapper t.heap.table c w).ret, t') ∧
      t'.errno = (t.setErrno (mmapWrapper t.heap.table c w).errno).errno ∧
      t'.heap = { t.heap with table := (mmapWrapper t.heap.table c w).table } := by
  obtain ⟨hret, _, herrno, hheap⟩ := callWrapper_spec lhFs .mmap (mmapBody c w) t
  obtain ⟨hentered, herrno', hheap'⟩ := enter_spec lhFs .mmap t
  obtain ⟨hbodyRet, hbodyErrno, hbodyHeap⟩ := mmapBody_spec c w (t.enter lhFs .mmap)
  rw [hheap'] at hbodyRet hbodyErrno hbodyHeap
  refine ⟨(callWrapper lhFs .mmap (mmapBody c w) t).2, ?_, ?_, hheap.trans hbodyHeap⟩
  · exact Prod.ext (hret.trans hbodyRet) rfl
  · rw [herrno, hbodyErrno]
    exact errno_setErrno_congr _ (hentered.trans hfs) herrno'

/-- The body computes what `sbrkWrapper` does, and the nested call leaves `errno` where it is read. -/
theorem sbrkBody_spec (increment : Int) (w : SbrkWorld) {t : Thread}
    (hfs : lowerFs lhFs t.fs = t.fs) :
    (sbrkBody lhFs increment w t).1 = (sbrkWrapper t.heap increment w).ret ∧
      (sbrkBody lhFs increment w t).2.errno =
        (t.setErrno (HeapCall.reason t.heap (.sbrk increment w))).errno ∧
      (sbrkBody lhFs increment w t).2.heap = (sbrkWrapper t.heap increment w).heap := by
  by_cases hbrk : t.heap.curbrk = 0 ∧ w.brkRet < 0
  · simp [sbrkBody, sbrkWrapper, HeapCall.reason, hbrk]
  · -- from here on both go the same way
    obtain ⟨u, hu, hufs, huerrno⟩ : ∃ u, u = t.startHeap ∧ u.fs = t.fs ∧ u.errno = t.errno := by
      refine ⟨_, rfl, ?_, ?_⟩
      all_goals
        unfold Thread.startHeap
        split <;> rfl
    have hheap : (if t.heap.curbrk = 0 then { t.heap with endOfHeap := t.heap.curbrk } else t.heap) =
        u.heap := by
      rw [hu, Thread.startHeap]
      split <;> rfl
    rw [sbrkBody, if_neg hbrk, ← hu, HeapCall.reason, if_neg hbrk, sbrkWrapper, if_neg hbrk]
    simp only [hheap]
    have hnone : u.errno = (t.setErrno none).errno := huerrno
    unfold sbrkFrom
    by_cases hzero : increment = 0
    · simp only [if_pos hzero]
      exact ⟨trivial, hnone, trivial⟩
    · simp only [if_neg hzero]
      by_cases hover : breakOverflows u.heap.curbrk increment = true
      · simp only [if_pos hover]
        exact ⟨trivial, errno_setErrno_congr _ hufs huerrno, Thread.heap_setErrno _ _⟩
      · simp only [if_neg hover]
        by_cases hgrow : movedBreak u.heap.curbrk increment > u.heap.endOfHeap
        · simp only [if_pos hgrow]
          have hufs' : lowerFs lhFs u.fs = u.fs := by rw [hufs, hfs]
          obtain ⟨t', hcall, herrno, hheap'⟩ := callMmap_spec lhFs
            (heapRequest u.heap.endOfHeap (movedBreak u.heap.curbrk increment)) w.mmap hufs'
          rw [hcall]
          by_cases hmap : (mmapWrapper u.heap.table
              (heapRequest u.heap.endOfHeap (movedBreak u.heap.curbrk increment)) w.mmap).ret =
                mapFailed
          · simp only [if_pos hmap]
            exact ⟨trivial, herrno.trans (errno_setErrno_congr _ hufs huerrno), hheap'⟩
          · simp only [if_neg hmap]
            rw [(mmapWrapper_errno_iff _ _ _).2 hmap] at herrno
            refine ⟨trivial, herrno.trans hnone, ?_⟩
            simp only [Thread.moveBreak, Thread.see, hheap']
        · simp only [if_neg hgrow]
          exact ⟨trivial, hnone, rfl⟩

/-- A call of `sbrkWrapper` reports the break, or fails and says why. -/
theorem sbrkWrapper_reason (h : Heap) (increment : Int) (w : SbrkWorld) :
    (HeapCall.reason h (.sbrk increment w) = none ∧ (sbrkWrapper h increment w).ret = h.curbrk) ∨
      (HeapCall.reason h (.sbrk increment w) ≠ none ∧
        (sbrkWrapper h increment w).ret = mapFailed) := by
  by_cases hbrk : h.curbrk = 0 ∧ w.brkRet < 0
  · right
    simp [HeapCall.reason, sbrkWrapper, hbrk]
  · -- the branch for an unset break changes only the end of the heap
    obtain ⟨g, hg, hbrkg⟩ : ∃ g : Heap,
        g = (if h.curbrk = 0 then { h with endOfHeap := h.curbrk } else h) ∧
          g.curbrk = h.curbrk := by
      refine ⟨_, rfl, ?_⟩
      split <;> rfl
    by_cases hzero : increment = 0
    · left
      simp [HeapCall.reason, sbrkWrapper, hbrk, hzero, ← hg, hbrkg]
    · by_cases hover : breakOverflows h.curbrk increment = true
      · right
        simp [HeapCall.reason, sbrkWrapper, hbrk, hzero, ← hg, hbrkg, hover]
      · by_cases hgrow : movedBreak h.curbrk increment > g.endOfHeap
        · have herrno := mmapWrapper_errno_iff g.table
            (heapRequest g.endOfHeap (movedBreak h.curbrk increment)) w.mmap
          by_cases hmap : (mmapWrapper g.table
              (heapRequest g.endOfHeap (movedBreak h.curbrk increment)) w.mmap).ret = mapFailed
          · right
            simp [HeapCall.reason, sbrkWrapper, hbrk, hzero, ← hg, hbrkg, hover, hgrow, hmap, herrno]
          · left
            simp [HeapCall.reason, sbrkWrapper, hbrk, hzero, ← hg, hbrkg, hover, hgrow, hmap]
        · left
          simp [HeapCall.reason, sbrkWrapper, hbrk, hzero, ← hg, hbrkg, hover, hgrow]

/-- A call that has a reason to fail returns -1. -/
theorem ret_of_reason {h : Heap} {call : HeapCall} (hreason : call.reason h ≠ none) :
    call.ret h = mapFailed := by
  cases call with
  | mmap c w => exact not_not.1 fun hne => hreason ((mmapWrapper_errno_iff h.table c w).2 hne)
  | sbrk increment w =>
      rcases sbrkWrapper_reason h increment w with ⟨hnone, _⟩ | ⟨_, hfailed⟩
      · exact absurd hnone hreason
      · exact hfailed

/-- A call that returns -1 has a reason to fail, unless the break is there. -/
theorem reason_of_ret {h : Heap} (hbrk : h.curbrk ≠ mapFailed) {call : HeapCall}
    (hret : call.ret h = mapFailed) : call.reason h ≠ none := by
  cases call with
  | mmap c w => exact fun hnone => (mmapWrapper_errno_iff h.table c w).1 hnone hret
  | sbrk increment w =>
      rcases sbrkWrapper_reason h increment w with ⟨_, hbreak⟩ | ⟨hne, _⟩
      · exact absurd (hbreak.symm.trans hret) hbrk
      · exact hne

/-- The reason goes into the block that the body reads. -/
theorem run_spec (call : HeapCall) (t : Thread) :
    (call.run lhFs t).1 = call.ret t.heap ∧ (call.run lhFs t).2.fs = t.fs ∧
      (call.run lhFs t).2.errno =
        ({ t with fs := lowerFs lhFs t.fs }.setErrno (call.reason t.heap)).errno := by
  cases call with
  | mmap c w =>
      obtain ⟨hret, hfs, herrno, -⟩ := callWrapper_spec lhFs .mmap (mmapBody c w) t
      obtain ⟨hentered, herrno', hheap'⟩ := enter_spec lhFs .mmap t
      obtain ⟨hbodyRet, hbodyErrno, -⟩ := mmapBody_spec c w (t.enter lhFs .mmap)
      rw [hheap'] at hbodyRet hbodyErrno
      refine ⟨hret.trans hbodyRet, hfs, (herrno.trans hbodyErrno).trans ?_⟩
      exact errno_setErrno_congr _ hentered herrno'
  | sbrk increment w =>
      obtain ⟨hret, hfs, herrno, -⟩ := callWrapper_spec lhFs .sbrk (sbrkBody lhFs increment w) t
      obtain ⟨hentered, herrno', hheap'⟩ := enter_spec lhFs .sbrk t
      have hlower : lowerFs lhFs (t.enter lhFs .sbrk).fs = (t.enter lhFs .sbrk).fs := by
        rw [hentered, lowerFs_lowerFs]
      obtain ⟨hbodyRet, hbodyErrno, -⟩ := sbrkBody_spec lhFs increment w hlower
      rw [hheap'] at hbodyRet hbodyErrno
      refine ⟨hret.trans hbodyRet, hfs, (herrno.trans hbodyErrno).trans ?_⟩
      exact errno_setErrno_congr _ hentered herrno'

/-- A call that fails returns -1, and what its caller reads in `errno` is the reason exactly if the
register is not switched, or the caller's `errno` is the reason by chance. -/
theorem tellsReason_iff (call : HeapCall) (t : Thread) {e : Errno}
    (hreason : call.reason t.heap = some e) :
    (call.run lhFs t).1 = mapFailed ∧
      ((call.run lhFs t).2.readErrno = some e ↔
        lhFs = 0 ∨ lhFs = t.fs ∨ t.readErrno = some e) := by
  obtain ⟨hret, hfs, herrno⟩ := run_spec lhFs call t
  refine ⟨hret.trans (ret_of_reason (by simp [hreason])), ?_⟩
  have hblock : lowerFs lhFs t.fs = t.fs ↔ lhFs = 0 ∨ lhFs = t.fs := by
    unfold lowerFs
    split
    · constructor
      · exact .inr
      · rintro (hzero | heq)
        · omega
        · exact heq
    · simp only [true_iff]
      omega
  rw [Thread.readErrno, hfs, herrno, hreason, Thread.setErrno, ← or_assoc, ← hblock]
  by_cases hsame : lowerFs lhFs t.fs = t.fs
  · simp [hsame]
  · simp [hsame, Function.update_of_ne (Ne.symm hsame), Thread.readErrno]

end Errors

/-! ## An increment that wraps -/

/-- The upper half's thread, whose last error was `EAGAIN`. -/
def upperThread : Thread where
  fs := 0x7000
  errno := fun fs => if fs = 0x7000 then some .EAGAIN else none
  heap := ⟨0x10000, 0x10000, .initial⟩
  log := []

/-- `sbrk` of a negative amount that there is not, and a mapping from the middle of a page. -/
def wrappingSbrk : HeapCall := .sbrk (-0x20000) ⟨0, ⟨mapFailed, .ENOMEM, none⟩⟩

def oddMmap : HeapCall := .mmap ⟨0, 0x1000, protRead, mapPrivate, 3, 1⟩ ⟨0, .EINVAL, none⟩

/-- If the lower half has no register of its own, the reason is found. -/
theorem tellsReason_unswitched :
    (wrappingSbrk.run 0 upperThread).1 = mapFailed ∧
      (wrappingSbrk.run 0 upperThread).2.readErrno = some .ENOMEM := by
  obtain ⟨hret, hiff⟩ := tellsReason_iff 0 wrappingSbrk upperThread (e := .ENOMEM) (by decide)
  exact ⟨hret, hiff.2 (.inl rfl)⟩

/-- Otherwise the upper half finds what was there before. -/
theorem not_tellsReason_oddMmap :
    oddMmap.reason upperThread.heap = some .EINVAL ∧ (oddMmap.run 0x5000 upperThread).1 = mapFailed ∧
      0x5000 ≠ upperThread.fs ∧
      (oddMmap.run 0x5000 upperThread).2.readErrno = some .EAGAIN ∧
      (oddMmap.run 0x5000 upperThread).2.readErrno ≠ oddMmap.reason upperThread.heap := by
  decide

end WrapperCalls
end CkptRestart
