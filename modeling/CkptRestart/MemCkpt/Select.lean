import CkptRestart.Common

/-!
# Select — which memory a checkpoint writes

The decisions of `checkpointMemory` in `mem-ckpt.c`, apart from the writing itself: for each line of
`/proc/self/maps`, `skipRegion` and `writeRelevantMemoryRegion` choose at most one record, from the
area and the first entry of the tracked list that contains the area or lies in it.

The purpose of the choice is stated over sets of addresses (`worthSaving`, `covered`);
`complete_iff` says for which areas and lists the code meets it.
-/

namespace CkptRestart

/-! ## The code -/

def vvarName : List UInt8 := cstr ['v', 'v', 'a', 'r']

def vdsoName : List UInt8 := cstr ['v', 'd', 's', 'o']

def vsyscallName : List UInt8 := cstr ['v', 's', 'y', 's', 'c', 'a', 'l', 'l']

/-- The three calls of `strstr` in `skipRegion`. -/
def skippedName (name : List UInt8) : Bool :=
  strstr name vvarName || strstr name vdsoName || strstr name vsyscallName

def skipRegion (area : Area) : Bool :=
  if !area.readable then true
  else if skippedName area.name then true
  else false

def MmapInfo.uhMmapEnd (t : MmapInfo) : Nat := wrap (t.addr + t.len)

/-- `uhArea`: the area cut down to a tracked region. -/
def Area.cutTo (area : Area) (t : MmapInfo) : Area :=
  { area with
    addr := t.addr
    endAddr := t.uhMmapEnd
    size := t.len }

/-- The loop of `writeRelevantMemoryRegion` over the tracked list: the region that it passes to
`writeMemoryRegion` before its `break`. -/
def relevantLoop (area : Area) : List MmapInfo → Option Area
  | [] => none
  | t :: array =>
      -- either way the loop ends here, whatever else is tracked inside the area
      if regionContains t.addr t.uhMmapEnd area.addr area.endAddr then some area
      else if regionContains area.addr area.endAddr t.addr t.uhMmapEnd then some (area.cutTo t)
      else relevantLoop area array

/-- `writeRelevantMemoryRegion`, up to the write.  The list is what `lhInfo.lhMmapListFptr`
returns, and `none` stands for a null pointer there. -/
def relevantRecord (fnc : Option (List MmapInfo)) (area : Area) : Option Area :=
  if !area.readable then none
  else
    match fnc with
    | none => none
    | some array => relevantLoop area array

/-- The body of the loop of `checkpointMemory`. -/
def recordOf (fnc : Option (List MmapInfo)) (area : Area) : Option Area :=
  if skipRegion area then none else relevantRecord fnc area

/-- The records of a whole checkpoint, in the order of the maps file. -/
def selectRecords (fnc : Option (List MmapInfo)) (areas : List Area) : List Area :=
  areas.filterMap (recordOf fnc)

/-! ## What one area yields -/

/-- One of the two contains the other, as the code tests it. -/
def nests (area : Area) (t : MmapInfo) : Bool :=
  regionContains t.addr t.uhMmapEnd area.addr area.endAddr ||
    regionContains area.addr area.endAddr t.addr t.uhMmapEnd

/-- The record for an area and the entry the loop stops at. -/
def recordAt (area : Area) (t : MmapInfo) : Area :=
  if regionContains t.addr t.uhMmapEnd area.addr area.endAddr then area else area.cutTo t

theorem recordAt_of_inside {area : Area} {t : MmapInfo}
    (h : regionContains t.addr t.uhMmapEnd area.addr area.endAddr = true) :
    recordAt area t = area := if_pos h

theorem recordAt_of_not_inside {area : Area} {t : MmapInfo}
    (h : ¬ regionContains t.addr t.uhMmapEnd area.addr area.endAddr = true) :
    recordAt area t = area.cutTo t := if_neg h

/-- The loop stops at the first entry that nests with the area. -/
theorem relevantLoop_eq (area : Area) (array : List MmapInfo) :
    relevantLoop area array = (array.find? (nests area)).map (recordAt area) := by
  induction array with
  | nil => rfl
  | cons t array ih =>
      by_cases hin : regionContains t.addr t.uhMmapEnd area.addr area.endAddr = true
      · simp [relevantLoop, nests, recordAt, hin]
      · by_cases hout : regionContains area.addr area.endAddr t.addr t.uhMmapEnd = true
        · simp [relevantLoop, nests, recordAt, hin, hout]
        · simp [relevantLoop, nests, hin, hout, ih]

theorem recordOf_eq_some_iff {array : List MmapInfo} {area r : Area} :
    recordOf (some array) area = some r ↔
      area.readable = true ∧ skippedName area.name = false ∧
        ∃ t, array.find? (nests area) = some t ∧ recordAt area t = r := by
  cases hread : area.readable <;> cases hname : skippedName area.name <;>
    simp [recordOf, skipRegion, relevantRecord, relevantLoop_eq, hread, hname]

theorem nests_of_find? {array : List MmapInfo} {area : Area} {t : MmapInfo}
    (h : array.find? (nests area) = some t) : nests area t = true :=
  List.find?_some h

/-- A record is the area, or the tracked region the loop stopped at inside the area; either way it
lies in the area and has its protection. -/
structure RecordOf (area : Area) (t : MmapInfo) (r : Area) : Prop where
  prot : r.prot = area.prot
  name : r.name = area.name
  addr_le : area.addr ≤ r.addr
  endAddr_le : r.endAddr ≤ area.endAddr
  bounds : (r = area ∧ t.addr ≤ area.addr ∧ area.endAddr ≤ t.uhMmapEnd) ∨
    (r.addr = t.addr ∧ r.endAddr = t.uhMmapEnd ∧ r.size = t.len)

theorem recordAt_spec {area : Area} {t : MmapInfo} (h : nests area t = true) :
    RecordOf area t (recordAt area t) := by
  by_cases hin : regionContains t.addr t.uhMmapEnd area.addr area.endAddr = true
  · rw [recordAt_of_inside hin]
    exact ⟨rfl, rfl, le_rfl, le_rfl, Or.inl ⟨rfl, by simpa using hin⟩⟩
  · have hout : regionContains area.addr area.endAddr t.addr t.uhMmapEnd = true := by
      simpa [nests, hin] using h
    rw [regionContains_iff] at hout
    rw [recordAt_of_not_inside hin]
    exact ⟨rfl, rfl, hout.1, hout.2, Or.inr ⟨rfl, rfl, rfl⟩⟩

/-- Every selected record comes from one area of the maps file and one tracked region. -/
theorem mem_selectRecords {array : List MmapInfo} {areas : List Area} {r : Area} :
    r ∈ selectRecords (some array) areas ↔
      ∃ a ∈ areas, a.readable = true ∧ skippedName a.name = false ∧
        ∃ t, array.find? (nests a) = some t ∧ recordAt a t = r := by
  simp [selectRecords, List.mem_filterMap, recordOf_eq_some_iff]

/-- Without a list no region is selected. -/
theorem selectRecords_none (areas : List Area) : selectRecords none areas = [] := by
  rw [selectRecords, List.filterMap_eq_nil_iff]
  intro area _
  simp [recordOf, relevantRecord]

theorem RecordOf.range_subset {area : Area} {t : MmapInfo} {r : Area} (h : RecordOf area t r) :
    r.range ⊆ area.range :=
  Set.Ico_subset_Ico h.addr_le h.endAddr_le

/-! ## What a checkpoint is for -/

/-- The names of the areas that no checkpoint can hold. -/
def kernelNames : List (List UInt8) :=
  [cstr ['[', 'v', 'v', 'a', 'r', ']'],
   cstr ['[', 'v', 'd', 's', 'o', ']'],
   cstr ['[', 'v', 's', 'y', 's', 'c', 'a', 'l', 'l', ']']]

def trackedSet (tracked : List MmapInfo) : Set Nat := {x | ∃ t ∈ tracked, x ∈ t.range}

/-- The readable memory that belongs to the upper half. -/
def worthSaving (areas : List Area) (tracked : List MmapInfo) : Set Nat :=
  {x | (∃ a ∈ areas, a.readable = true ∧ a.name ∉ kernelNames ∧ x ∈ a.range) ∧
    x ∈ trackedSet tracked}

def covered (records : List Area) : Set Nat := {x | ∃ r ∈ records, x ∈ r.range}

def Complete (s : MapsSnapshot) (tracked : List MmapInfo) : Prop :=
  worthSaving s.areas tracked ⊆ covered (selectRecords (some tracked) s.areas)

/-- An area is kept: no part of its name makes the code skip it, and the first tracked region that
nests with it holds all that is tracked of it. -/
def Kept (tracked : List MmapInfo) (a : Area) : Prop :=
  skippedName a.name = false ∧
    ∃ t, tracked.find? (nests a) = some t ∧
      ∀ x ∈ a.range ∩ trackedSet tracked, t.addr ≤ x ∧ x < t.uhMmapEnd

theorem Kept.covered {tracked : List MmapInfo} {areas : List Area} {a : Area}
    (h : Kept tracked a) (ha : a ∈ areas) (hread : a.readable = true) {x : Nat}
    (hx : x ∈ a.range) (hxt : x ∈ trackedSet tracked) :
    x ∈ covered (selectRecords (some tracked) areas) := by
  rcases h with ⟨hname, t, hfind, hkeep⟩
  refine ⟨recordAt a t, mem_selectRecords.2 ⟨a, ha, hread, hname, t, hfind, rfl⟩, ?_⟩
  by_cases hin : regionContains t.addr t.uhMmapEnd a.addr a.endAddr = true
  · rwa [recordAt_of_inside hin]
  · rw [recordAt_of_not_inside hin]
    exact hkeep x ⟨hx, hxt⟩

/-- An address of an area is covered exactly when the record of that area has it. -/
theorem mem_covered_iff {tracked : List MmapInfo} (s : MapsSnapshot) {a : Area} (ha : a ∈ s.areas)
    {x : Nat} (hx : x ∈ a.range) :
    x ∈ covered (selectRecords (some tracked) s.areas) ↔
      a.readable = true ∧ skippedName a.name = false ∧
        ∃ t, tracked.find? (nests a) = some t ∧ x ∈ (recordAt a t).range := by
  constructor
  · rintro ⟨r, hr, hxr⟩
    rcases mem_selectRecords.1 hr with ⟨b, hb, hread, hname, t, hfind, rfl⟩
    have hxb : x ∈ b.range := (recordAt_spec (nests_of_find? hfind)).range_subset hxr
    obtain rfl : b = a := Area.eq_of_mem_range s.disjoint hb ha hxb hx
    exact ⟨hread, hname, t, hfind, hxr⟩
  · rintro ⟨hread, hname, t, hfind, hxr⟩
    exact ⟨recordAt a t, mem_selectRecords.2 ⟨a, ha, hread, hname, t, hfind, rfl⟩, hxr⟩

/-- A checkpoint loses nothing exactly when it keeps every readable area that the kernel does not
reserve and that meets a tracked region. -/
theorem complete_iff (s : MapsSnapshot) (tracked : List MmapInfo) :
    Complete s tracked ↔
      ∀ a ∈ s.areas, a.readable = true → a.name ∉ kernelNames →
        (a.range ∩ trackedSet tracked).Nonempty → Kept tracked a := by
  constructor
  · intro h a ha hread hname hmeet
    -- an address of `a` can only be covered by the record of `a` itself
    have hrecord : ∀ x ∈ a.range ∩ trackedSet tracked,
        skippedName a.name = false ∧
          ∃ t, tracked.find? (nests a) = some t ∧ x ∈ (recordAt a t).range := by
      rintro x ⟨hx, hxt⟩
      exact ((mem_covered_iff s ha hx).1 (h ⟨⟨a, ha, hread, hname, hx⟩, hxt⟩)).2
    rcases hmeet with ⟨x₀, hx₀⟩
    rcases hrecord x₀ hx₀ with ⟨hskip, t, hfind, _⟩
    refine ⟨hskip, t, hfind, fun x hx => ?_⟩
    rcases hrecord x hx with ⟨_, u, hfind', hxr⟩
    obtain rfl : t = u := Option.some.inj (hfind.symm.trans hfind')
    by_cases hin : regionContains t.addr t.uhMmapEnd a.addr a.endAddr = true
    · obtain ⟨hlo, hhi⟩ := regionContains_iff.1 hin
      exact ⟨hlo.trans hx.1.1, lt_of_lt_of_le hx.1.2 hhi⟩
    · rwa [recordAt_of_not_inside hin] at hxr
  · rintro h x ⟨⟨a, ha, hread, hname, hx⟩, hxt⟩
    exact (h a ha hread hname ⟨x, hx, hxt⟩).covered ha hread hx hxt

/-! ## Only upper-half memory -/

/-- Records of areas that do not overlap do not overlap. -/
theorem selectRecords_disjoint (tracked : List MmapInfo) {areas : List Area}
    (hdis : areas.Pairwise fun a b => Disjoint a.range b.range) :
    (selectRecords (some tracked) areas).Pairwise fun a b => Disjoint a.range b.range := by
  refine hdis.filterMap _ fun a b hab r hr u hu => ?_
  rcases recordOf_eq_some_iff.1 hr with ⟨_, _, t, hfind, rfl⟩
  rcases recordOf_eq_some_iff.1 hu with ⟨_, _, t', hfind', rfl⟩
  exact hab.mono (recordAt_spec (nests_of_find? hfind)).range_subset
    (recordAt_spec (nests_of_find? hfind')).range_subset

/-- A part of an area that is not skipped and of a tracked region, with the protection of the area
and the size of its range. -/
structure UpperHalfRecord (areas : List Area) (tracked : List MmapInfo) (r : Area) : Prop where
  addr_le : r.addr ≤ r.endAddr
  size : r.endAddr - r.addr = r.size
  area : ∃ a ∈ areas, a.readable = true ∧ skipRegion a = false ∧
    a.addr ≤ r.addr ∧ r.endAddr ≤ a.endAddr ∧ r.prot = a.prot
  region : ∃ t ∈ tracked, t.addr ≤ r.addr ∧ r.endAddr ≤ t.addr + t.len

theorem recordAt_upperHalf {areas : List Area} {tracked : List MmapInfo} {a : Area} {t : MmapInfo}
    (ha : a ∈ areas) (ht : t ∈ tracked) (hread : a.readable = true)
    (hname : skippedName a.name = false) (hnest : nests a t = true) (hordered : a.addr ≤ a.endAddr)
    (hsized : a.size = a.endAddr - a.addr) (hroom : t.addr + t.len < wordSize) :
    UpperHalfRecord areas tracked (recordAt a t) := by
  have hend : t.uhMmapEnd = t.addr + t.len := wrap_of_lt hroom
  have hskip : skipRegion a = false := by simp [skipRegion, hread, hname]
  have hrecord := recordAt_spec hnest
  have harea : ∃ b ∈ areas, b.readable = true ∧ skipRegion b = false ∧
      b.addr ≤ (recordAt a t).addr ∧ (recordAt a t).endAddr ≤ b.endAddr ∧
      (recordAt a t).prot = b.prot :=
    ⟨a, ha, hread, hskip, hrecord.addr_le, hrecord.endAddr_le, hrecord.prot⟩
  rcases hrecord.bounds with ⟨hsame, hlow, hhigh⟩ | ⟨haddr, hendAddr, hsize⟩
  · rw [hsame] at harea ⊢
    exact ⟨hordered, hsized.symm, harea, t, ht, hlow, by rwa [hend] at hhigh⟩
  · rw [hend] at hendAddr
    refine ⟨?_, ?_, harea, t, ht, le_of_eq haddr.symm, le_of_eq hendAddr⟩
    · rw [haddr, hendAddr]
      exact Nat.le_add_right _ _
    · rw [haddr, hendAddr, hsize]
      exact Nat.add_sub_cancel_left _ _

/-- Whatever is tracked, the records of a checkpoint are upper-half memory, and no address is in two
of them. -/
theorem selectRecords_upperHalf {areas : List Area} {tracked : List MmapInfo}
    (hordered : ∀ a ∈ areas, a.addr ≤ a.endAddr)
    (hsized : ∀ a ∈ areas, a.size = a.endAddr - a.addr)
    (hdis : areas.Pairwise fun a b => Disjoint a.range b.range)
    (htracked : ∀ t ∈ tracked, t.addr + t.len < wordSize) :
    (∀ r ∈ selectRecords (some tracked) areas, UpperHalfRecord areas tracked r) ∧
      (selectRecords (some tracked) areas).Pairwise fun r u => Disjoint r.range u.range := by
  refine ⟨?_, selectRecords_disjoint tracked hdis⟩
  intro r hr
  rcases mem_selectRecords.1 hr with ⟨a, ha, hread, hname, t, hfind, rfl⟩
  have ht := List.mem_of_find?_eq_some hfind
  exact recordAt_upperHalf ha ht hread hname (nests_of_find? hfind) (hordered a ha) (hsized a ha)
    (htracked t ht)

/-! ## A heap that grew -/

/-- Two pages of anonymous memory that the kernel lists as one area. -/
def mergedHeap : Area where
  addr := 0x10000
  endAddr := 0x12000
  size := 0x2000
  offset := 0
  prot := protRead ||| protWrite
  flags := mapFixed ||| mapPrivate ||| mapAnonymous
  devmajor := 0
  devminor := 0
  inodenum := 0
  properties := 0
  name := []

def mergedHeapMaps : MapsSnapshot where
  areas := [mergedHeap]
  fits := by
    intro a ha
    obtain rfl : a = mergedHeap := by simpa using ha
    constructor <;> decide
  ordered := by decide
  sized := by decide
  aligned := by decide
  disjoint := by simp

/-- Two entries for the heap, the second past its end. -/
theorem selectRecords_upperHalf_mergedHeap :
    (∀ r ∈ selectRecords (some [⟨0x10000, 0x1800⟩, ⟨0x11000, 0x4000⟩]) [mergedHeap],
      UpperHalfRecord [mergedHeap] [⟨0x10000, 0x1800⟩, ⟨0x11000, 0x4000⟩] r) ∧
      (selectRecords (some [⟨0x10000, 0x1800⟩, ⟨0x11000, 0x4000⟩]) [mergedHeap]).Pairwise
        fun r u => Disjoint r.range u.range :=
  selectRecords_upperHalf (by decide) (by decide) (by simp) (by decide)

/-- The second page, mapped by a second call, is in no record. -/
theorem not_complete_mergedHeap :
    ¬ Complete mergedHeapMaps [⟨0x10000, 0x1000⟩, ⟨0x11000, 0x1000⟩] := by
  intro h
  have hrecords : selectRecords (some [⟨0x10000, 0x1000⟩, ⟨0x11000, 0x1000⟩])
      mergedHeapMaps.areas = [mergedHeap.cutTo ⟨0x10000, 0x1000⟩] := by decide
  have hworth : 0x11000 ∈ worthSaving mergedHeapMaps.areas
      [⟨0x10000, 0x1000⟩, ⟨0x11000, 0x1000⟩] := by
    refine ⟨⟨mergedHeap, by simp [mergedHeapMaps], by decide, by decide, ?_⟩,
      ⟨0x11000, 0x1000⟩, by simp, ?_⟩
    · simp [mergedHeap]
    · simp
  rcases h hworth with ⟨r, hr, hx⟩
  rw [hrecords, List.mem_singleton] at hr
  subst hr
  revert hx
  simp [Area.cutTo, MmapInfo.uhMmapEnd, wrap, wordSize]

end CkptRestart
