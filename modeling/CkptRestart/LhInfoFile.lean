import CkptRestart.Common
import CkptRestart.Lib.Bytes
import CkptRestart.Lib.Exec
import Mathlib.Logic.Function.Basic

/-!
# LhInfoFile — how restarted ranks find the lower half

The lower half writes `lhInfo` to the file `addr.bin` once; every rank that resumes runs
`reset_wrappers` and, in its first wrapper call, `initialize_wrappers`, which opens the file, reads
it and removes it.  The ranks are threads of one process with one working directory, so they take
these steps in any order.

`reaches_iff` says for which orders every rank gets the structure.
-/

namespace CkptRestart

open Lib

/-! ## The file -/

def lhInfoSize : Nat := 40

def encodeLhInfo (l : LowerHalfInfo) : List UInt8 :=
  putWord 8 l.lhSbrk ++ (putWord 8 l.lhMmap ++ (putWord 8 l.lhDlsym ++
    (putWord 8 l.lhFsAddr ++ putWord 8 l.lhMmapListFptr)))

def decodeLhInfo (buf : List UInt8) : LowerHalfInfo :=
  let lhSbrk := getWord 8 buf
  let lhMmap := getWord 8 lhSbrk.2
  let lhDlsym := getWord 8 lhMmap.2
  let lhFsAddr := getWord 8 lhDlsym.2
  let lhMmapListFptr := getWord 8 lhFsAddr.2
  { lhSbrk := lhSbrk.1
    lhMmap := lhMmap.1
    lhDlsym := lhDlsym.1
    lhFsAddr := lhFsAddr.1
    lhMmapListFptr := lhMmapListFptr.1 }

structure LowerHalfInfo.Fits (l : LowerHalfInfo) : Prop where
  lhSbrk : l.lhSbrk < wordSize
  lhMmap : l.lhMmap < wordSize
  lhDlsym : l.lhDlsym < wordSize
  lhFsAddr : l.lhFsAddr < wordSize
  lhMmapListFptr : l.lhMmapListFptr < wordSize

/-- A loaded lower half: the addresses of its functions and its fs register. -/
structure LowerHalf where
  info : LowerHalfInfo
  fits : info.Fits

@[simp] theorem length_encodeLhInfo (l : LowerHalfInfo) : (encodeLhInfo l).length = lhInfoSize := by
  simp only [encodeLhInfo, List.length_append, length_putWord]
  decide

theorem decodeLhInfo_encodeLhInfo {l : LowerHalfInfo} (h : l.Fits) :
    decodeLhInfo (encodeLhInfo l) = l := by
  have hword : ∀ {v : Nat}, v < wordSize → ∀ rest, getWord 8 (putWord 8 v ++ rest) = (v, rest) :=
    fun hv rest => getWord_putWord_of_lt (by simpa [wordSize] using hv) rest
  have hlast : getWord 8 (putWord 8 l.lhMmapListFptr) = (l.lhMmapListFptr, []) := by
    simpa using hword h.lhMmapListFptr []
  simp only [decodeLhInfo, encodeLhInfo, hword h.lhSbrk, hword h.lhMmap, hword h.lhDlsym,
    hword h.lhFsAddr, hlast]

/-- `writeLhInfoToFile`; the file is created if need be, but not truncated. -/
def writeLhInfoToFile (l : LowerHalfInfo) (file : Option (List UInt8)) : List UInt8 :=
  overwrite 0 (file.getD []) 0 (encodeLhInfo l)

/-- The file starts with the structure, whatever was in it before. -/
theorem take_writeLhInfoToFile (l : LowerHalfInfo) (file : Option (List UInt8)) :
    (writeLhInfoToFile l file).take lhInfoSize = encodeLhInfo l := by
  have hlen := length_encodeLhInfo l
  have hne : encodeLhInfo l ≠ [] := by
    intro hnil
    rw [hnil] at hlen
    exact absurd hlen (by decide)
  simp [writeLhInfoToFile, overwrite, hne, List.take_left' hlen]

/-! ## One rank -/

/-- Where a rank stands: in the handler before `reset_wrappers`, before its first wrapper call, and
between the calls of `readLhInfoAddr`. -/
inductive RankPc
  | resumed
  | wrapperCall
  | opened (contents : List UInt8)
  | filled
  | unlinked
  | closed
  | ready
  deriving DecidableEq, Repr

/-- A rank with its own copies of `initialized` and `lhInfo`. -/
structure Rank where
  pc : RankPc
  initialized : Bool
  lhInfo : LowerHalfInfo
  deriving DecidableEq, Repr

/-- One step of a rank on the file: what it leaves of both.  An open descriptor keeps the contents
of a file that is unlinked. -/
def Rank.step (k : Rank) (addrBin : Option (List UInt8)) :
    Exec (Option (List UInt8) × Rank) :=
  match k.pc with
  | .resumed => pure (addrBin, { k with pc := .wrapperCall, initialized := false })
  | .wrapperCall =>
      if k.initialized then pure (addrBin, { k with pc := .ready })
      else
        match addrBin with
        -- the file cannot be opened: `exit(-1)`
        | none => .exited
        | some contents => pure (addrBin, { k with pc := .opened contents })
  | .opened contents =>
      if contents.length < lhInfoSize then .exited
      else pure (addrBin,
        { k with pc := .filled, lhInfo := decodeLhInfo (contents.take lhInfoSize) })
  -- `unlink`, whether or not the file is still there
  | .filled => pure (none, { k with pc := .unlinked })
  | .unlinked => pure (addrBin, { k with pc := .closed })
  | .closed => pure (addrBin, { k with pc := .ready, initialized := true })
  | .ready => pure (addrBin, k)

/-- A rank with the copies `k` after `m` steps in which the file was there when it opened it. -/
def Rank.after (l : LowerHalf) (contents : List UInt8) (k : Rank) : Nat → Rank
  | 0 => { k with pc := .resumed }
  | 1 => { k with pc := .wrapperCall, initialized := false }
  | 2 => { k with pc := .opened contents, initialized := false }
  | 3 => ⟨.filled, false, l.info⟩
  | 4 => ⟨.unlinked, false, l.info⟩
  | 5 => ⟨.closed, false, l.info⟩
  | _ + 6 => ⟨.ready, true, l.info⟩

/-- The fourth step removes the file; only the second one needs it. -/
theorem Rank.step_after (l : LowerHalf) {contents : List UInt8} (k : Rank) (m : Nat)
    (addrBin : Option (List UInt8)) (hcontents : contents.take lhInfoSize = encodeLhInfo l.info)
    (hopen : m = 1 → addrBin = some contents) :
    (Rank.after l contents k m).step addrBin =
      .ok (if m = 3 then none else addrBin, Rank.after l contents k (m + 1)) := by
  -- the file is at least as long as the structure, so the read is not short
  have hlen : ¬ contents.length < lhInfoSize := by
    have htake := congrArg List.length hcontents
    rw [length_encodeLhInfo, List.length_take] at htake
    omega
  match m with
  | 0 => rfl
  | 1 =>
      rw [hopen rfl]
      rfl
  | 2 => simp [after, step, hlen, hcontents, decodeLhInfo_encodeLhInfo l.fits]
  | 3 => rfl
  | 4 => rfl
  | 5 => rfl
  | m + 6 => simp [after, step]

theorem Rank.step_after_one (l : LowerHalf) (contents : List UInt8) (k : Rank) :
    (Rank.after l contents k 1).step none = .exited := rfl

/-! ## All ranks -/

/-- The restarted process: the file and its ranks. -/
structure Restarted (n : Nat) where
  addrBin : Option (List UInt8)
  ranks : Fin n → Rank

variable {n : Nat}

def Restarted.step (r : Restarted n) (i : Fin n) : Exec (Restarted n) := do
  let (addrBin, k) ← (r.ranks i).step r.addrBin
  pure ⟨addrBin, Function.update r.ranks i k⟩

def Restarted.run : List (Fin n) → Restarted n → Exec (Restarted n)
  | [], r => pure r
  | i :: order, r => r.step i >>= Restarted.run order

theorem Restarted.run_append_singleton (order : List (Fin n)) (i : Fin n) (r : Restarted n) :
    Restarted.run (order ++ [i]) r = (Restarted.run order r >>= fun r => r.step i) := by
  induction order generalizing r with
  | nil => cases h : r.step i <;> simp [run, h]
  | cons j order ih => cases h : r.step j <;> simp [run, h, ih]

/-- `restoreCheckpoint` after `setupLowerHalfInfo`: the ranks resume with what their images hold. -/
def resumeRanks (l : LowerHalf) (old : Option (List UInt8)) (copies : Fin n → Rank) :
    Restarted n where
  addrBin := some (writeLhInfoToFile l.info old)
  ranks := fun i => { copies i with pc := .resumed }

/-- No rank has removed the file yet. -/
def FileThere (order : List (Fin n)) : Prop := ∀ j, order.count j ≤ 3

theorem count_append_singleton (order : List (Fin n)) (i j : Fin n) :
    (order ++ [i]).count j = order.count j + if j = i then 1 else 0 := by
  by_cases hj : j = i
  · simp [hj]
  · simp [hj, Ne.symm hj]

/-- The file is removed by a fourth step, and only by that. -/
theorem fileThere_append_singleton (order : List (Fin n)) (i : Fin n) :
    FileThere (order ++ [i]) ↔ FileThere order ∧ order.count i ≠ 3 := by
  constructor
  · intro hthere
    refine ⟨fun j => ?_, ?_⟩
    · have := hthere j
      rw [count_append_singleton] at this
      omega
    · have := hthere i
      rw [count_append_singleton, if_pos rfl] at this
      omega
  · rintro ⟨hthere, hnot⟩ j
    have := hthere j
    rw [count_append_singleton]
    by_cases hj : j = i
    · subst hj
      rw [if_pos rfl]
      omega
    · simpa [hj] using this

/-- The process after the steps of `order`: every rank as far as its own steps take it, and the file
removed by the first that has taken four. -/
structure Follows (l : LowerHalf) (old : Option (List UInt8)) (copies : Fin n → Rank)
    (order : List (Fin n)) (r : Restarted n) : Prop where
  ranks : ∀ i, r.ranks i =
    Rank.after l (writeLhInfoToFile l.info old) (copies i) (order.count i)
  there : FileThere order → r.addrBin = some (writeLhInfoToFile l.info old)
  gone : ¬ FileThere order → r.addrBin = none

theorem resumeRanks_follows (l : LowerHalf) (old : Option (List UInt8)) (copies : Fin n → Rank) :
    Follows l old copies [] (resumeRanks l old copies) where
  ranks := fun _ => rfl
  there := fun _ => rfl
  gone := fun h => absurd (fun _ => Nat.zero_le 3) h

/-- A step by rank `i` keeps all this, unless it looks for the file in vain. -/
theorem Follows.step {l : LowerHalf} {old : Option (List UInt8)} {copies : Fin n → Rank}
    {order : List (Fin n)} {r : Restarted n} (h : Follows l old copies order r) (i : Fin n)
    (hopen : order.count i = 1 → FileThere order) :
    ∃ r', r.step i = .ok r' ∧ Follows l old copies (order ++ [i]) r' := by
  have hrank := Rank.step_after l (copies i) (order.count i) r.addrBin
    (take_writeLhInfoToFile l.info old) (fun hone => h.there (hopen hone))
  rw [← h.ranks i] at hrank
  refine ⟨_, by rw [Restarted.step, hrank]; rfl, ?_, ?_, ?_⟩
  · intro j
    rw [count_append_singleton]
    by_cases hj : j = i
    · subst hj
      simp
    · simpa [hj] using h.ranks j
  · intro hthere
    rcases (fileThere_append_singleton order i).1 hthere with ⟨hbefore, hnot⟩
    simpa [hnot] using h.there hbefore
  · intro hgone
    by_cases hthree : order.count i = 3
    · simp [hthree]
    · -- some rank had removed the file before
      have hbefore : ¬ FileThere order := fun hthere =>
        hgone ((fileThere_append_singleton order i).2 ⟨hthere, hthree⟩)
      simpa [hthree] using h.gone hbefore

/-- A step that looks for the file in vain ends the process. -/
theorem Follows.step_exited {l : LowerHalf} {old : Option (List UInt8)} {copies : Fin n → Rank}
    {order : List (Fin n)} {r : Restarted n} (h : Follows l old copies order r) {i : Fin n}
    (hone : order.count i = 1) (hgone : ¬ FileThere order) : r.step i = .exited := by
  have hrank : (r.ranks i).step r.addrBin = .exited := by
    rw [h.ranks i, hone, h.gone hgone]
    exact Rank.step_after_one l _ (copies i)
  rw [Restarted.step, hrank]
  rfl

/-- Whenever a rank looks for the file, no rank has removed it. -/
def OpensInTime (order : List (Fin n)) : Prop :=
  ∀ pre i post, order = pre ++ i :: post → pre.count i = 1 → FileThere pre

theorem opensInTime_append_singleton (order : List (Fin n)) (i : Fin n) :
    OpensInTime (order ++ [i]) ↔
      OpensInTime order ∧ (order.count i = 1 → FileThere order) :=
  Exec.forall_split_append_singleton

/-- In such an order nothing ends the process. -/
theorem run_follows (l : LowerHalf) (old : Option (List UInt8)) (copies : Fin n → Rank)
    {order : List (Fin n)} (h : OpensInTime order) :
    ∃ r, Restarted.run order (resumeRanks l old copies) = .ok r ∧
      Follows l old copies order r := by
  induction order using List.reverseRecOn with
  | nil => exact ⟨_, rfl, resumeRanks_follows l old copies⟩
  | append_singleton order i ih =>
      rcases (opensInTime_append_singleton order i).1 h with ⟨hbefore, hopen⟩
      rcases ih hbefore with ⟨r, hr, hfollows⟩
      rcases hfollows.step i hopen with ⟨r', hr', hfollows'⟩
      exact ⟨r', by simp [Restarted.run_append_singleton, hr, hr'], hfollows'⟩

/-- In any other order some rank ends it. -/
theorem run_exited (l : LowerHalf) (old : Option (List UInt8)) (copies : Fin n → Rank)
    {order : List (Fin n)} (h : ¬ OpensInTime order) :
    Restarted.run order (resumeRanks l old copies) = .exited := by
  induction order using List.reverseRecOn with
  | nil => exact absurd (fun pre i post heq => by simp at heq) h
  | append_singleton order i ih =>
      rw [Restarted.run_append_singleton]
      by_cases hbefore : OpensInTime order
      · -- the last step is the one that comes too late
        rcases run_follows l old copies hbefore with ⟨r, hr, hfollows⟩
        have hlate : order.count i = 1 ∧ ¬ FileThere order := by
          by_contra hnot
          have hopen : order.count i = 1 → FileThere order := fun hone =>
            not_not.1 fun hgone => hnot ⟨hone, hgone⟩
          exact h ((opensInTime_append_singleton order i).2 ⟨hbefore, hopen⟩)
        rw [hr, Exec.ok_bind]
        exact hfollows.step_exited hlate.1 hlate.2
      · rw [ih hbefore]
        rfl

/-! ## What a restart relies on -/

/-- The process goes on, and every rank that has taken its six steps is initialized and has the
structure that the lower half wrote. -/
def Reaches (l : LowerHalf) (old : Option (List UInt8)) (copies : Fin n → Rank)
    (order : List (Fin n)) : Prop :=
  ∃ r, Restarted.run order (resumeRanks l old copies) = .ok r ∧
    ∀ i, 6 ≤ order.count i → (r.ranks i).initialized = true ∧ (r.ranks i).lhInfo = l.info

/-- All ranks reach the lower half exactly in the orders in which each of them opens the file before
any has removed it. -/
theorem reaches_iff (l : LowerHalf) (old : Option (List UInt8)) (copies : Fin n → Rank)
    (order : List (Fin n)) : Reaches l old copies order ↔ OpensInTime order := by
  constructor
  · rintro ⟨r, hr, _⟩
    by_contra hnot
    rw [run_exited l old copies hnot] at hr
    cases hr
  · intro h
    rcases run_follows l old copies h with ⟨r, hr, hfollows⟩
    refine ⟨r, hr, fun i hi => ?_⟩
    obtain ⟨m, hm⟩ : ∃ m, order.count i = m + 6 := ⟨order.count i - 6, by omega⟩
    rw [hfollows.ranks i, hm]
    exact ⟨rfl, rfl⟩

/-- A single rank always opens the file in time. -/
theorem opensInTime_one (order : List (Fin 1)) : OpensInTime order := by
  intro pre i post _ hone j
  obtain rfl : j = i := Subsingleton.elim j i
  omega

/-- Two ranks, the second of which starts when the first is ready. -/
theorem not_reaches_twoRanks :
    ¬ ∀ (l : LowerHalf) (copies : Fin 2 → Rank) (order : List (Fin 2)),
      Reaches l none copies order := by
  intro hall
  let l : LowerHalf := ⟨⟨0, 0, 0, 0, 0⟩, by constructor <;> decide⟩
  let copies : Fin 2 → Rank := fun _ => ⟨.resumed, true, l.info⟩
  have hlate : ¬ OpensInTime (List.replicate 6 (0 : Fin 2) ++ List.replicate 6 1) := by
    intro h
    have hzero := h (List.replicate 6 0 ++ [1]) 1 (List.replicate 4 1) rfl (by decide) 0
    exact absurd hzero (by decide)
  rcases hall l copies _ with ⟨r, hr, _⟩
  rw [run_exited l none copies hlate] at hr
  cases hr

end CkptRestart
