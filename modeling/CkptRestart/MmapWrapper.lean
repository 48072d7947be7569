import CkptRestart.Common
import CkptRestart.Lib.RingLog

/-!
# MmapWrapper — the lower half's list of upper-half regions

`mmap-wrapper.c`: every mapping made for the upper half goes through `mmapWrapper`, which records
the region in the static table `mmaps`; a checkpoint asks `getMmappedList` for the table.

The table is a `Lib.RingLog` of capacity `MAX_TRACK` whose write index is also reported as the
number of valid entries.  `mmappedList_runMmaps` says what the list is after any run of calls, and
`tracksAll_iff` when it is what the checkpoint relies on.
-/

namespace CkptRestart

open Lib

/-! ## The table -/

def maxTrack : Nat := 1000

/-- The statics `numRegions` and `mmaps`. -/
structure MmapTable where
  numRegions : Nat
  mmaps : List MmapInfo
  deriving DecidableEq, Repr

namespace MmapTable

def initial : MmapTable where
  numRegions := 0
  mmaps := List.replicate maxTrack ⟨0, 0⟩

/-- The three assignments of `__mmapWrapper` that record a region. -/
def track (t : MmapTable) (r : MmapInfo) : MmapTable where
  numRegions := (t.numRegions + 1) % maxTrack
  mmaps := t.mmaps.set t.numRegions r

def ring (t : MmapTable) : RingLog MmapInfo := ⟨t.numRegions, t.mmaps⟩

theorem ring_track (t : MmapTable) (r : MmapInfo) : (t.track r).ring = t.ring.push maxTrack r := rfl

theorem initial_inBounds : initial.ring.InBounds maxTrack where
  next_lt := by decide
  length_cells := by simp [ring, initial]

end MmapTable

/-- `getMmappedList` for a non-null `num`: the value stored in `*num`, and the array. -/
def getMmappedList (t : MmapTable) : Nat × List MmapInfo := (t.numRegions, t.mmaps)

/-- The first `*num` entries of the array. -/
def mmappedList (t : MmapTable) : List MmapInfo :=
  (getMmappedList t).2.take (getMmappedList t).1

theorem mmappedList_eq_valid (t : MmapTable) : mmappedList t = t.ring.valid := rfl

/-! ## One call -/

/-- `MMAP_OFF_MASK`; the high mask is shifted out of the word altogether. -/
def mmapOffMask : Nat :=
  wrap ((wordSize - 4096 * 2) * 2 ^ 63) ||| (4096 - 1)

example : mmapOffMask = 0xfff := by decide

structure MmapCall where
  addr : Nat
  length : Nat
  prot : Nat
  flags : Nat
  fd : Int
  offset : Nat
  deriving DecidableEq, Repr

/-- What the world answers to one call: the result of the real `mmap`, the `errno` that goes with
`MAP_FAILED`, and the link `/proc/self/fd/<fd>` points to, if it can be read. -/
structure MmapWorld where
  ret : Nat
  errno : Errno
  link : Option (List UInt8)
  deriving DecidableEq, Repr

/-- `checkLibrary`: the path of the file behind the descriptor, if it contains `name`. -/
def checkLibrary (link : Option (List UInt8)) (name : List UInt8) : Option (List UInt8) :=
  match link with
  | none => none
  | some fullPath => if strstr fullPath name then some fullPath else none

def libcName : List UInt8 := cstr ['l', 'i', 'b', 'c', '-']

/-- What a call leaves: its result, the `errno` it sets, the table, the index of `mmaps` it wrote
to, and the call `patchLibc(fd, ret, path)` it makes. -/
structure MmapOut where
  ret : Nat
  errno : Option Errno
  table : MmapTable
  wrote : Option Nat
  patch : Option (Int × Nat × List UInt8)

/-- `mmapWrapper`, that is the body `__mmapWrapper` between the switches of the fs register. -/
def mmapWrapper (t : MmapTable) (c : MmapCall) (w : MmapWorld) : MmapOut :=
  if c.offset &&& mmapOffMask ≠ 0 then
    { ret := mapFailed
      errno := some .EINVAL
      table := t
      wrote := none
      patch := none }
  else if w.ret ≠ mapFailed then
    { ret := w.ret
      errno := none
      table := t.track ⟨w.ret, c.length⟩
      wrote := some t.numRegions
      patch :=
        if c.fd > 0 then
          match checkLibrary w.link libcName with
          | some glibcFullPath =>
              if c.prot &&& protExec ≠ 0 then some (c.fd, w.ret, glibcFullPath) else none
          | none => none
        else none }
  else
    { ret := w.ret
      errno := some w.errno
      table := t
      wrote := none
      patch := none }

/-- The region a call adds to the upper half: none if the offset is rejected or `mmap` fails. -/
def mappedBy (c : MmapCall) (w : MmapWorld) : Option MmapInfo :=
  if c.offset &&& mmapOffMask = 0 ∧ w.ret ≠ mapFailed then some ⟨w.ret, c.length⟩ else none

/-- A call fails and records nothing, or returns the new region's address and records it. -/
theorem mmapWrapper_cases (t : MmapTable) (c : MmapCall) (w : MmapWorld) :
    (mappedBy c w = none ∧ (mmapWrapper t c w).ret = mapFailed ∧
      (mmapWrapper t c w).table = t ∧ (mmapWrapper t c w).wrote = none) ∨
    (∃ r, mappedBy c w = some r ∧ (mmapWrapper t c w).ret = r.addr ∧ r.addr ≠ mapFailed ∧
      r.len = c.length ∧ (mmapWrapper t c w).table = t.track r ∧
      (mmapWrapper t c w).wrote = some t.numRegions) := by
  by_cases hoff : c.offset &&& mmapOffMask = 0
  · by_cases hret : w.ret = mapFailed
    · left
      simp [mappedBy, mmapWrapper, hoff, hret]
    · right
      exact ⟨⟨w.ret, c.length⟩, by simp [mappedBy, hoff, hret], by simp [mmapWrapper, hoff, hret],
        hret, rfl, by simp [mmapWrapper, hoff, hret], by simp [mmapWrapper, hoff, hret]⟩
  · left
    simp [mappedBy, mmapWrapper, hoff]

theorem mmapWrapper_of_failed (t : MmapTable) (c : MmapCall) {w : MmapWorld}
    (h : w.ret = mapFailed) :
    mappedBy c w = none ∧ (mmapWrapper t c w).ret = mapFailed ∧ (mmapWrapper t c w).table = t := by
  rcases mmapWrapper_cases t c w with ⟨hmap, hret, htable, _⟩ | ⟨r, hmap, _⟩
  · exact ⟨hmap, hret, htable⟩
  · simp [mappedBy, h] at hmap

theorem mmapWrapper_ret_of_failed (t : MmapTable) (c : MmapCall) {w : MmapWorld}
    (h : w.ret = mapFailed) : (mmapWrapper t c w).ret = mapFailed :=
  (mmapWrapper_of_failed t c h).2.1

/-! ## Runs of calls -/

/-- A run of calls, with what each of them left. -/
def runMmaps : List (MmapCall × MmapWorld) → MmapTable → List (MmapCall × MmapOut) × MmapTable
  | [], t => ([], t)
  | (c, w) :: calls, t =>
      let out := mmapWrapper t c w
      let (outs, t') := runMmaps calls out.table
      ((c, out) :: outs, t')

/-- The regions that a run of calls adds to the upper half, in order. -/
def mappedRegions (calls : List (MmapCall × MmapWorld)) : List MmapInfo :=
  calls.filterMap fun cw => mappedBy cw.1 cw.2

theorem mappedRegions_cons (c : MmapCall) (w : MmapWorld) (calls : List (MmapCall × MmapWorld)) :
    mappedRegions ((c, w) :: calls) = (mappedBy c w).toList ++ mappedRegions calls := by
  cases h : mappedBy c w <;> simp [mappedRegions, h]

/-- A run pushes exactly the mapped regions. -/
theorem ring_runMmaps (calls : List (MmapCall × MmapWorld)) (t : MmapTable) :
    (runMmaps calls t).2.ring = t.ring.pushAll maxTrack (mappedRegions calls) := by
  induction calls generalizing t with
  | nil => rfl
  | cons cw calls ih =>
      rcases cw with ⟨c, w⟩
      rcases mmapWrapper_cases t c w with ⟨hmap, _, htable, _⟩ | ⟨r, hmap, _, _, _, htable, _⟩
      · simpa [runMmaps, htable, mappedRegions_cons, hmap] using ih t
      · simpa [runMmaps, htable, mappedRegions_cons, hmap, MmapTable.ring_track,
          RingLog.pushAll] using ih (t.track r)

theorem mmappedList_runMmaps (calls : List (MmapCall × MmapWorld)) :
    mmappedList (runMmaps calls .initial).2 = RingLog.recent maxTrack (mappedRegions calls) := by
  rw [mmappedList_eq_valid, ring_runMmaps]
  exact RingLog.valid_pushAll MmapTable.initial_inBounds rfl _

/-- The calls of a run that succeed return exactly the mapped regions. -/
theorem mem_mappedRegions_iff (calls : List (MmapCall × MmapWorld)) (t : MmapTable)
    (r : MmapInfo) :
    r ∈ mappedRegions calls ↔
      ∃ co ∈ (runMmaps calls t).1, co.2.ret ≠ mapFailed ∧ r = ⟨co.2.ret, co.1.length⟩ := by
  induction calls generalizing t with
  | nil => simp [mappedRegions, runMmaps]
  | cons cw calls ih =>
      rcases cw with ⟨c, w⟩
      rcases mmapWrapper_cases t c w with
        ⟨hmap, hret, htable, _⟩ | ⟨s, hmap, hret, hne, hlen, htable, _⟩
      · simp only [mappedRegions_cons, hmap, Option.toList_none, List.nil_append, ih t]
        simp [runMmaps, htable, hret]
      · -- the call returned `s.addr` for a request of `s.len` bytes
        have hpair : (⟨s.addr, c.length⟩ : MmapInfo) = s := by rw [← hlen]
        simp only [mappedRegions_cons, hmap, Option.toList_some, List.cons_append, List.nil_append,
          List.mem_cons, ih (t.track s)]
        simp [runMmaps, htable, hret, hne, hpair]

theorem wrote_lt (calls : List (MmapCall × MmapWorld)) {t : MmapTable}
    (ht : t.ring.InBounds maxTrack) :
    ∀ co ∈ (runMmaps calls t).1, ∀ i, co.2.wrote = some i → i < maxTrack := by
  induction calls generalizing t with
  | nil => simp [runMmaps]
  | cons cw calls ih =>
      rcases cw with ⟨c, w⟩
      intro co hco i hi
      rcases mmapWrapper_cases t c w with ⟨_, _, htable, hwrote⟩ | ⟨r, _, _, _, _, htable, hwrote⟩
      · simp only [runMmaps, htable, List.mem_cons] at hco
        rcases hco with rfl | hco
        · simp [hwrote] at hi
        · exact ih ht co hco i hi
      · simp only [runMmaps, htable, List.mem_cons] at hco
        rcases hco with rfl | hco
        · obtain rfl : t.numRegions = i := by simpa [hwrote] using hi
          exact ht.next_lt
        · have ht' : (t.track r).ring.InBounds maxTrack := ht.push r
          exact ih ht' co hco i hi

/-! ## What the checkpoint relies on -/

/-- After the run the list holds the region of every call that succeeded and nothing else, and no
call wrote outside the array. -/
structure TracksAll (calls : List (MmapCall × MmapWorld)) : Prop where
  complete : ∀ co ∈ (runMmaps calls .initial).1, co.2.ret ≠ mapFailed →
    (⟨co.2.ret, co.1.length⟩ : MmapInfo) ∈ mmappedList (runMmaps calls .initial).2
  sound : ∀ r ∈ mmappedList (runMmaps calls .initial).2,
    ∃ co ∈ (runMmaps calls .initial).1, co.2.ret ≠ mapFailed ∧ r = ⟨co.2.ret, co.1.length⟩
  inBounds : ∀ co ∈ (runMmaps calls .initial).1, ∀ i, co.2.wrote = some i → i < maxTrack

/-- The list is right exactly when every region mapped before the counter last came round to zero
has been mapped again since; in particular while fewer than `MAX_TRACK` calls have succeeded. -/
theorem tracksAll_iff (calls : List (MmapCall × MmapWorld)) :
    TracksAll calls ↔
      ∀ r ∈ (mappedRegions calls).take
          ((mappedRegions calls).length - (mappedRegions calls).length % maxTrack),
        r ∈ (mappedRegions calls).drop
          ((mappedRegions calls).length - (mappedRegions calls).length % maxTrack) := by
  rw [← RingLog.forall_mem_recent_iff]
  have hlist := mmappedList_runMmaps calls
  constructor
  · rintro ⟨hcomplete, _, _⟩ r hr
    -- a mapped region was returned by a call, so it is in the list
    rcases (mem_mappedRegions_iff calls .initial r).1 hr with ⟨co, hco, hne, rfl⟩
    rw [← hlist]
    exact hcomplete co hco hne
  · intro h
    refine ⟨?_, ?_, wrote_lt calls MmapTable.initial_inBounds⟩
    · intro co hco hne
      rw [hlist]
      exact h _ ((mem_mappedRegions_iff calls .initial _).2 ⟨co, hco, hne, rfl⟩)
    · intro r hr
      -- the list holds mapped regions in every run
      rw [hlist] at hr
      exact (mem_mappedRegions_iff calls .initial r).1 (List.mem_of_mem_drop hr)

def onePageCall : MmapCall × MmapWorld :=
  (⟨0, pageSize, protRead ||| protWrite, mapPrivate ||| mapAnonymous, -1, 0⟩,
    ⟨0x10000, .ENOMEM, none⟩)

/-- After `MAX_TRACK` successful calls the list is empty. -/
theorem not_tracksAll_maxTrack : ¬ TracksAll (List.replicate maxTrack onePageCall) := by
  rintro ⟨hcomplete, _, _⟩
  have hregions : mappedRegions (List.replicate maxTrack onePageCall) =
      List.replicate maxTrack ⟨0x10000, pageSize⟩ := by
    have hone : mappedBy onePageCall.1 onePageCall.2 = some ⟨0x10000, pageSize⟩ := by decide
    simp [mappedRegions, hone]
  have hempty : mmappedList (runMmaps (List.replicate maxTrack onePageCall) .initial).2 = [] := by
    simp [mmappedList_runMmaps, hregions, RingLog.recent]
  have hmem : (⟨0x10000, pageSize⟩ : MmapInfo) ∈
      mappedRegions (List.replicate maxTrack onePageCall) := by
    rw [hregions]
    exact List.mem_replicate.2 ⟨by decide, rfl⟩
  rcases (mem_mappedRegions_iff _ .initial _).1 hmem with ⟨co, hco, hne, _⟩
  have hlisted := hcomplete co hco hne
  simp [hempty] at hlisted

end CkptRestart
