import CkptRestart.MemCkpt.Handler
import CkptRestart.MmapWrapper

/-!
# LiveStack — the stack of the upper half in its image

`createNewStackForRtld` maps the stack through `mmapWrapper`, so that the region is tracked with the
bounds it then has.  The kernel extends the area downwards when the stack grows; the entry stays.

`liveStackSaved_iff` says which checkpoints save the stack from the saved stack pointer on.
-/

namespace CkptRestart

/-! ## The new stack -/

/-- The mapping that `createNewStackForRtld` asks for, as large as the original stack. -/
def newStackCall (stack : Area) : MmapCall :=
  ⟨0, stack.size, protRead ||| protWrite, mapGrowsDown ||| mapPrivate ||| mapAnonymous, -1, 0⟩

/-- `createNewStackForRtld` up to the copy: the address of the new stack, or `none` if it returns
`NULL`, and the statics of the mmap wrapper. -/
def createNewStackForRtld (t : MmapTable) (stack : Area) (w : MmapWorld) :
    Option Nat × MmapTable :=
  let out := mmapWrapper t (newStackCall stack) w
  if out.ret = mapFailed then (none, out.table) else (some out.ret, out.table)

/-- The list that a checkpoint gets when the loader has made the calls `before` and then the new
stack, and the calls `after` were made since. -/
def trackedWithStack (before : List (MmapCall × MmapWorld)) (stack : Area) (w : MmapWorld)
    (after : List (MmapCall × MmapWorld)) : List MmapInfo :=
  mmappedList (runMmaps after
    (createNewStackForRtld (runMmaps before .initial).2 stack w).2).2

/-- The area of a stack that was mapped at `start`: it still ends where it did, and may have grown
downwards. -/
structure StackArea (start size : Nat) (s : MapsSnapshot) (a : Area) : Prop where
  mem : a ∈ s.areas
  prot : a.prot = protRead ||| protWrite
  name : a.name = []
  endAddr : a.endAddr = start + size
  grown : a.addr ≤ start

/-! ## What is saved of it -/

/-- The entry at which the loop stops for the area reaches from `sp` or below to its end. -/
def EntryReaches (tracked : List MmapInfo) (a : Area) (sp : Nat) : Prop :=
  ∃ t, tracked.find? (nests a) = some t ∧
    (regionContains t.addr t.uhMmapEnd a.addr a.endAddr = true ∨
      t.addr ≤ sp ∧ t.uhMmapEnd = a.endAddr)

/-- Of a readable area with no special name, the part from `sp` on is covered exactly when the entry
for the area reaches it. -/
theorem covered_from_iff {tracked : List MmapInfo} {s : MapsSnapshot} {a : Area} (ha : a ∈ s.areas)
    (hread : a.readable = true) (hname : skippedName a.name = false) {sp : Nat}
    (hsp : sp ∈ a.range) :
    Set.Ico sp a.endAddr ⊆ covered (selectRecords (some tracked) s.areas) ↔
      EntryReaches tracked a sp := by
  have hpart : ∀ x ∈ Set.Ico sp a.endAddr, x ∈ a.range :=
    fun x hx => ⟨le_trans hsp.1 hx.1, hx.2⟩
  constructor
  · intro hcovered
    have hmem : ∀ x ∈ Set.Ico sp a.endAddr,
        ∃ t, tracked.find? (nests a) = some t ∧ x ∈ (recordAt a t).range := by
      intro x hx
      exact ((mem_covered_iff s ha (hpart x hx)).1 (hcovered hx)).2.2
    rcases hmem sp ⟨le_rfl, hsp.2⟩ with ⟨t, hfind, _⟩
    refine ⟨t, hfind, ?_⟩
    by_cases hin : regionContains t.addr t.uhMmapEnd a.addr a.endAddr = true
    · exact Or.inl hin
    · right
      -- the record is the entry, which lies in the area
      have hsubset : Set.Ico sp a.endAddr ⊆ Set.Ico t.addr t.uhMmapEnd := by
        intro x hx
        rcases hmem x hx with ⟨u, hfind', hxr⟩
        obtain rfl : t = u := Option.some.inj (hfind.symm.trans hfind')
        rwa [recordAt_of_not_inside hin] at hxr
      rcases (Set.Ico_subset_Ico_iff hsp.2).1 hsubset with ⟨hlow, hhigh⟩
      have hend := (recordAt_spec (nests_of_find? hfind)).endAddr_le
      rw [recordAt_of_not_inside hin] at hend
      exact ⟨hlow, le_antisymm hend hhigh⟩
  · rintro ⟨t, hfind, hreach⟩ x hx
    refine (mem_covered_iff s ha (hpart x hx)).2 ⟨hread, hname, t, hfind, ?_⟩
    by_cases hin : regionContains t.addr t.uhMmapEnd a.addr a.endAddr = true
    · rw [recordAt_of_inside hin]
      exact hpart x hx
    · rcases hreach with hcontains | ⟨hlow, hend⟩
      · exact absurd hcontains hin
      · rw [recordAt_of_not_inside hin]
        exact ⟨le_trans hlow hx.1, lt_of_lt_of_eq hx.2 hend.symm⟩

/-- A checkpoint of `p` with the context `st` saves the stack `a` from the saved pointer on. -/
def LiveStackSaved (st : CkptRestartState) (p : Proc) (a : Area) : Prop :=
  Set.Ico st.sp a.endAddr ⊆ covered p.records

/-- A checkpoint saves the live part of the stack exactly when the entry at which the loop stops for
its area, as large as it now is, contains the area or starts at or below the stack pointer and ends
with the area. -/
theorem liveStackSaved_iff (before after : List (MmapCall × MmapWorld)) (stack : Area)
    (w : MmapWorld) {p : Proc} (hfnc : p.fnc = some (trackedWithStack before stack w after))
    {a : Area} (ha : StackArea w.ret stack.size p.mem.maps a) {st : CkptRestartState}
    (hsp : st.sp ∈ a.range) :
    LiveStackSaved st p a ↔ EntryReaches (trackedWithStack before stack w after) a st.sp := by
  have hread : a.readable = true := by simp [Area.readable, ha.prot, protRead, protWrite]
  have hname : skippedName a.name = false := by
    rw [ha.name]
    decide
  rw [LiveStackSaved, Proc.records, hfnc]
  exact covered_from_iff ha.mem hread hname hsp

/-- Where the entry of the stack itself decides, the stack is saved exactly when the stack pointer
has not gone below the bounds that it was mapped with. -/
theorem entryReaches_own_iff {tracked : List MmapInfo} {s : MapsSnapshot} {a : Area}
    {start size sp : Nat} (ha : StackArea start size s a)
    (hfirst : tracked.find? (nests a) = some ⟨start, size⟩) (hsp : a.addr ≤ sp) :
    EntryReaches tracked a sp ↔ start ≤ sp := by
  have hend : (⟨start, size⟩ : MmapInfo).uhMmapEnd = a.endAddr := by
    rw [MmapInfo.uhMmapEnd, ← ha.endAddr]
    exact wrap_of_lt (s.fits a ha.mem).endAddr
  rw [EntryReaches, hfirst]
  simp only [Option.some.injEq, exists_eq_left', hend, regionContains_iff, le_refl, and_true]
  constructor
  · rintro (hlow | hlow)
    · exact le_trans hlow hsp
    · exact hlow
  · exact Or.inr

/-! ## A stack that grew by one page -/

def grownStack : Area where
  addr := 0x1f000
  endAddr := 0x22000
  size := 0x3000
  offset := 0
  prot := protRead ||| protWrite
  flags := mapPrivate ||| mapAnonymous
  devmajor := 0
  devminor := 0
  inodenum := 0
  properties := 0
  name := []

/-- The loader's own stack: two pages. -/
def origStack : Area := { grownStack with addr := 0x7000, endAddr := 0x9000, size := 0x2000 }

def stackWorld : MmapWorld := ⟨0x20000, .ENOMEM, none⟩

def grownStackProc : Proc where
  state := .RUNNING
  initialized := true
  fnc := some (trackedWithStack [] origStack stackWorld [])
  mem :=
    { maps :=
        { areas := [grownStack]
          fits := by
            intro a ha
            obtain rfl : a = grownStack := by simpa using ha
            constructor <;> decide
          ordered := by decide
          sized := by decide
          aligned := by decide
          disjoint := by simp }
      bytes := fun _ => 0 }

theorem grownStack_area :
    StackArea stackWorld.ret origStack.size grownStackProc.mem.maps grownStack where
  mem := List.mem_singleton.2 rfl
  prot := rfl
  name := rfl
  endAddr := rfl
  grown := by decide

def deepState : CkptRestartState := { CkptRestartState.blank with sp := 0x1f800 }

theorem deepState_sp_mem : deepState.sp ∈ grownStack.range := ⟨by decide, by decide⟩

theorem liveStackSaved_iff_grownStack :
    LiveStackSaved deepState grownStackProc grownStack ↔
      EntryReaches (trackedWithStack [] origStack stackWorld []) grownStack deepState.sp :=
  liveStackSaved_iff [] [] origStack stackWorld rfl grownStack_area deepState_sp_mem

/-- The stack pointer is in the page that the stack has grown by, and that page is not saved. -/
theorem not_liveStackSaved_grownStack :
    ¬ LiveStackSaved deepState grownStackProc grownStack := by
  intro hsaved
  have hrecords : grownStackProc.records = [grownStack.cutTo ⟨0x20000, 0x2000⟩] := by decide
  have hcovered : 0x1f800 ∈ covered grownStackProc.records := hsaved ⟨by decide, by decide⟩
  rw [hrecords] at hcovered
  rcases hcovered with ⟨r, hr, hx⟩
  obtain rfl := List.mem_singleton.1 hr
  exact absurd hx.1 (by decide)

end CkptRestart
