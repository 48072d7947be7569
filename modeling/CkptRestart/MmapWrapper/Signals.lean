import CkptRestart.Lib.Exec
import CkptRestart.MmapWrapper

/-!
# Signals — a checkpoint in the middle of a call of `mmapWrapper`

`__mmapWrapper` records a region with three assignments, and the signal for a checkpoint, whose handler
reads the table with `getMmappedList`, may come between any two of them.  Here a call is taken apart
into its steps, and a signal may come at any of them.

The entry is written behind the valid ones and counts only when the index moves
(`RingLog.valid_modify`), so a step is either invisible or does all that the call does to the table:
`Refines.step` says so, and `checkpoint_seesCalls` follows for whole runs.
-/

namespace CkptRestart
namespace MmapSignals

open Lib

/-! ## The steps of a call -/

/-- Where a call of `__mmapWrapper` stands; `world` is what `mmap` has answered. -/
inductive Pc
  | testOffset
  | mmap
  | testRet (world : MmapWorld)
  | storeAddr (world : MmapWorld)
  | storeLen (world : MmapWorld)
  | advance (world : MmapWorld)
  | checkLibrary (world : MmapWorld)
  deriving DecidableEq, Repr

/-- The statics, and the call in progress, if there is one. -/
structure World where
  table : MmapTable
  call : Option (MmapCall × Pc)
  deriving DecidableEq, Repr

def start : World := ⟨.initial, none⟩

inductive Event
  | call (c : MmapCall)
  | mmap (c : MmapCall) (world : MmapWorld)
  | advance (c : MmapCall) (world : MmapWorld)
  | silent
  | checkpoint (tracked : List MmapInfo)
  deriving DecidableEq, Repr

/-- The assignment of one field of the entry `mmaps[numRegions]`. -/
def writeEntry (t : MmapTable) (f : MmapInfo → MmapInfo) : MmapTable :=
  { t with mmaps := t.mmaps.modify t.numRegions f }

inductive Step : World → Event → World → Prop
  | call (t : MmapTable) (c : MmapCall) : Step ⟨t, none⟩ (.call c) ⟨t, some (c, .testOffset)⟩
  | rejected {t : MmapTable} {c : MmapCall} (hoffset : c.offset &&& mmapOffMask ≠ 0) :
      Step ⟨t, some (c, .testOffset)⟩ .silent ⟨t, none⟩
  | accepted {t : MmapTable} {c : MmapCall} (hoffset : c.offset &&& mmapOffMask = 0) :
      Step ⟨t, some (c, .testOffset)⟩ .silent ⟨t, some (c, .mmap)⟩
  | mmap (t : MmapTable) (c : MmapCall) (world : MmapWorld) :
      Step ⟨t, some (c, .mmap)⟩ (.mmap c world) ⟨t, some (c, .testRet world)⟩
  | failed {t : MmapTable} {c : MmapCall} {world : MmapWorld} (hret : world.ret = mapFailed) :
      Step ⟨t, some (c, .testRet world)⟩ .silent ⟨t, none⟩
  | mapped {t : MmapTable} {c : MmapCall} {world : MmapWorld} (hret : world.ret ≠ mapFailed) :
      Step ⟨t, some (c, .testRet world)⟩ .silent ⟨t, some (c, .storeAddr world)⟩
  | storeAddr (t : MmapTable) (c : MmapCall) (world : MmapWorld) :
      Step ⟨t, some (c, .storeAddr world)⟩ .silent
        ⟨writeEntry t fun r => { r with addr := world.ret }, some (c, .storeLen world)⟩
  | storeLen (t : MmapTable) (c : MmapCall) (world : MmapWorld) :
      Step ⟨t, some (c, .storeLen world)⟩ .silent
        ⟨writeEntry t fun r => { r with len := c.length }, some (c, .advance world)⟩
  | advance (t : MmapTable) (c : MmapCall) (world : MmapWorld) :
      Step ⟨t, some (c, .advance world)⟩ (.advance c world)
        ⟨{ t with numRegions := (t.numRegions + 1) % maxTrack }, some (c, .checkLibrary world)⟩
  -- what `patchLibc` does is not done to the table
  | finish (t : MmapTable) (c : MmapCall) (world : MmapWorld) :
      Step ⟨t, some (c, .checkLibrary world)⟩ .silent ⟨t, none⟩
  | checkpoint (w : World) : Step w (.checkpoint (mmappedList w.table)) w

/-! ## What the steps come to -/

/-- The calls whose region is recorded. -/
def completed (es : List Event) : List (MmapCall × MmapWorld) :=
  es.filterMap fun
    | .advance c world => some (c, world)
    | _ => none

/-- The regions that the kernel has mapped. -/
def mapped (es : List Event) : List MmapInfo :=
  es.filterMap fun
    | .mmap c world => mappedBy c world
    | _ => none

theorem completed_append (es es' : List Event) :
    completed (es ++ es') = completed es ++ completed es' := List.filterMap_append

theorem mapped_append (es es' : List Event) : mapped (es ++ es') = mapped es ++ mapped es' :=
  List.filterMap_append

/-- The region that is mapped and not recorded yet. -/
def World.unrecorded (w : World) : Option MmapInfo :=
  match w.call with
  | some (c, .testRet world) => mappedBy c world
  | some (c, .storeAddr world) => mappedBy c world
  | some (c, .storeLen world) => mappedBy c world
  | some (c, .advance world) => mappedBy c world
  | _ => none

/-- The table in the middle of a call that has found the table `t`, or has done with it. -/
def during (t : MmapTable) : Option (MmapCall × Pc) → MmapTable
  | some (_, .storeLen world) => writeEntry t fun r => { r with addr := world.ret }
  | some (c, .advance world) => writeEntry t fun _ => ⟨world.ret, c.length⟩
  | _ => t

/-- The tests that the call has passed. -/
def Passed : Option (MmapCall × Pc) → Prop
  | none => True
  | some (_, .testOffset) => True
  | some (c, .mmap) => c.offset &&& mmapOffMask = 0
  | some (c, .testRet _) => c.offset &&& mmapOffMask = 0
  | some (c, .storeAddr world) => ∃ r, mappedBy c world = some r
  | some (c, .storeLen world) => ∃ r, mappedBy c world = some r
  | some (c, .advance world) => ∃ r, mappedBy c world = some r
  | some (_, .checkLibrary _) => True

/-- No step of a call is seen before the index moves. -/
theorem mmappedList_during (t : MmapTable) (call : Option (MmapCall × Pc)) :
    mmappedList (during t call) = mmappedList t := by
  have hwrite : ∀ f, mmappedList (writeEntry t f) = mmappedList t := t.ring.valid_modify
  rcases call with _ | ⟨c, pc⟩
  · rfl
  · cases pc with
    | storeLen world => exact hwrite _
    | advance world => exact hwrite _
    | _ => rfl

theorem runMmaps_append_singleton (calls : List (MmapCall × MmapWorld)) (c : MmapCall)
    (world : MmapWorld) (t : MmapTable) :
    (runMmaps (calls ++ [(c, world)]) t).2 = (mmapWrapper (runMmaps calls t).2 c world).table := by
  induction calls generalizing t with
  | nil => rfl
  | cons cw calls ih => exact ih _

/-- A run so far: the table is that of the completed calls, up to what the call in progress has done to
the entry behind the valid ones. -/
structure Refines (es : List Event) (w : World) : Prop where
  table : w.table = during (runMmaps (completed es) .initial).2 w.call
  passed : Passed w.call
  mapped : mapped es = mappedRegions (completed es) ++ w.unrecorded.toList

/-- The fields of an entry are assigned one after the other. -/
theorem writeEntry_writeEntry (t : MmapTable) (f g : MmapInfo → MmapInfo) :
    writeEntry (writeEntry t f) g = writeEntry t (g ∘ f) := by
  simp [writeEntry, List.modify_modify_eq]

/-- The three assignments together are those of a call that is not interrupted. -/
theorem advance_writeEntry (t : MmapTable) (r : MmapInfo) :
    { writeEntry t (fun _ => r) with numRegions := (t.numRegions + 1) % maxTrack } = t.track r := by
  rw [writeEntry, MmapTable.track, List.set_eq_modify]

theorem mappedRegions_append_singleton (calls : List (MmapCall × MmapWorld)) (c : MmapCall)
    (world : MmapWorld) :
    mappedRegions (calls ++ [(c, world)]) = mappedRegions calls ++ (mappedBy c world).toList := by
  rw [mappedRegions, List.filterMap_append]
  cases h : mappedBy c world <;> simp [h, mappedRegions]

/-- A step that records nothing and maps nothing. -/
theorem Refines.silent {es : List Event} {w w' : World} {e : Event} (h : Refines es w)
    (hcompleted : completed [e] = []) (hmapped : MmapSignals.mapped [e] = [])
    (htable : w.table = during (runMmaps (completed es) .initial).2 w.call →
      w'.table = during (runMmaps (completed es) .initial).2 w'.call)
    (hpassed : Passed w.call → Passed w'.call)
    (hunrecorded : w'.unrecorded = w.unrecorded) : Refines (es ++ [e]) w' := by
  have hsame : completed (es ++ [e]) = completed es := by
    rw [completed_append, hcompleted, List.append_nil]
  refine ⟨?_, hpassed h.passed, ?_⟩
  · rw [hsame]
    exact htable h.table
  · rw [mapped_append, hmapped, List.append_nil, hsame, hunrecorded]
    exact h.mapped

theorem Refines.step {es : List Event} {w w' : World} {e : Event} (h : Refines es w)
    (he : Step w e w') : Refines (es ++ [e]) w' := by
  cases he with
  | call t c => exact h.silent rfl rfl id (fun _ => trivial) rfl
  | rejected _ => exact h.silent rfl rfl id (fun _ => trivial) rfl
  | accepted hoffset => exact h.silent rfl rfl id (fun _ => hoffset) rfl
  | mmap t c world =>
      -- what the kernel has mapped is not recorded yet
      have hmapped : MmapSignals.mapped [.mmap c world] = (mappedBy c world).toList := by
        cases hregion : mappedBy c world <;> simp [MmapSignals.mapped, hregion]
      have hbefore : MmapSignals.mapped es = mappedRegions (completed es) ++ [] := h.mapped
      have hsame : completed (es ++ [.mmap c world]) = completed es := by
        rw [completed_append]
        exact List.append_nil _
      refine ⟨?_, h.passed, ?_⟩
      · rw [hsame]
        exact h.table
      · rw [mapped_append, hmapped, hbefore, hsame, List.append_nil]
        rfl
  | failed hret =>
      exact h.silent rfl rfl id (fun _ => trivial) (mmapWrapper_of_failed .initial _ hret).1.symm
  | mapped hret =>
      exact h.silent rfl rfl id (fun hoffset => ⟨_, if_pos ⟨hoffset, hret⟩⟩) rfl
  | storeAddr t c world =>
      exact h.silent rfl rfl (fun ht => congrArg (writeEntry · _) ht) id rfl
  | storeLen t c world =>
      refine h.silent rfl rfl (fun ht => ?_) id rfl
      exact (congrArg (writeEntry · _) ht).trans (writeEntry_writeEntry _ _ _)
  | advance t c world =>
      -- all that the call does to the table becomes visible here
      obtain ⟨r, hr⟩ := h.passed
      have hentry : r = ⟨world.ret, c.length⟩ := by
        rw [mappedBy] at hr
        split at hr
        · exact (Option.some.inj hr).symm
        · cases hr
      have htable : t = writeEntry (runMmaps (completed es) .initial).2
          fun _ => ⟨world.ret, c.length⟩ := h.table
      have hcompleted : completed (es ++ [.advance c world]) = completed es ++ [(c, world)] :=
        completed_append _ _
      have hmapped : MmapSignals.mapped (es ++ [.advance c world]) = MmapSignals.mapped es := by
        rw [mapped_append]
        exact List.append_nil _
      refine ⟨?_, trivial, ?_⟩
      · rw [hcompleted, runMmaps_append_singleton]
        rcases mmapWrapper_cases (runMmaps (completed es) .initial).2 c world with
          ⟨hnone, _⟩ | ⟨r', hr', _, _, _, htrack, _⟩
        · rw [hnone] at hr
          cases hr
        · obtain rfl : r' = r := Option.some.inj (hr'.symm.trans hr)
          show _ = (mmapWrapper (runMmaps (completed es) .initial).2 c world).table
          rw [htrack, hentry, ← advance_writeEntry, htable]
          rfl
      · rw [hmapped, hcompleted, mappedRegions_append_singleton]
        exact h.mapped.trans (List.append_nil _).symm
  | finish t c world => exact h.silent rfl rfl id (fun _ => trivial) rfl
  | checkpoint w => exact h.silent rfl rfl id id rfl

theorem refines_of_run {es : List Event} {w : World} (hrun : Run Step start es w) : Refines es w := by
  induction hrun with
  | nil => exact ⟨rfl, trivial, rfl⟩
  | snoc _ he ih => exact ih.step he

/-! ## What a checkpoint sees -/

/-- Whatever the steps between which the signal comes, the handler finds the table as the calls have left
it that have moved the index.  While fewer than `MAX_TRACK` regions are mapped, the only one that it can
miss is that of a call which has mapped it and not moved the index yet. -/
theorem checkpoint_seesCalls {es : List Event} {w w' : World} {tracked : List MmapInfo}
    (hrun : Run Step start es w) (hsignal : Step w (.checkpoint tracked) w') :
    tracked = mmappedList (runMmaps (completed es) .initial).2 ∧
      mapped es = mappedRegions (completed es) ++ w.unrecorded.toList ∧
      ((mapped es).length < maxTrack →
        mapped es = tracked ++ w.unrecorded.toList ∧ (tracked = mapped es ↔ w.unrecorded = none)) := by
  have hrefines := refines_of_run hrun
  have htracked : tracked = mmappedList (runMmaps (completed es) .initial).2 := by
    cases hsignal
    rw [hrefines.table, mmappedList_during]
  refine ⟨htracked, hrefines.mapped, fun hfew => ?_⟩
  have hlt : (mappedRegions (completed es)).length < maxTrack := by
    rw [hrefines.mapped, List.length_append] at hfew
    exact lt_of_le_of_lt (Nat.le_add_right _ _) hfew
  have hlist : tracked = mappedRegions (completed es) := by
    rw [htracked, mmappedList_runMmaps, RingLog.recent_of_lt hlt]
  have hsplit : mapped es = tracked ++ w.unrecorded.toList := by
    rw [hlist]
    exact hrefines.mapped
  refine ⟨hsplit, ?_⟩
  rw [hsplit]
  cases w.unrecorded <;> simp

/-- A first call has returned; the signal comes between the two stores of a second one. -/
theorem checkpoint_seesCalls_secondCall :
    ∃ (es : List Event) (w : World) (first second : MmapInfo),
      Run Step start es w ∧ Step w (.checkpoint [first]) w ∧ mapped es = [first, second] ∧
        mapped es = [first] ++ w.unrecorded.toList := by
  let c := onePageCall.1
  let world := onePageCall.2
  let next : MmapWorld := { world with ret := 0x20000 }
  have hmapped : Run Step start [.call c, .silent, .mmap c world, .silent]
      ⟨.initial, some (c, .storeAddr world)⟩ :=
    .snoc (.snoc (.snoc (.snoc (.nil _) (.call _ c)) (.accepted (by decide))) (.mmap _ c world))
      (.mapped (by decide))
  have hreturned := ((((hmapped.snoc (.storeAddr _ c world)).snoc (.storeLen _ c world)).snoc
    (.advance _ c world)).snoc (.finish _ c world))
  have hsecond := ((((hreturned.snoc (.call _ c)).snoc (.accepted (by decide))).snoc
    (.mmap _ c next)).snoc (.mapped (by decide)))
  have hrun := hsecond.snoc (.storeAddr _ c next)
  obtain ⟨hlist, _, hfew⟩ := checkpoint_seesCalls hrun (.checkpoint _)
  have htracked := hlist.trans (show _ = [(⟨world.ret, c.length⟩ : MmapInfo)] by decide)
  rw [htracked] at hfew
  exact ⟨_, _, ⟨world.ret, c.length⟩, ⟨next.ret, c.length⟩, hrun, htracked ▸ .checkpoint _,
    by decide, (hfew (by decide)).1⟩

end MmapSignals
end CkptRestart
