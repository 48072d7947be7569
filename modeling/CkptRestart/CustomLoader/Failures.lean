import CkptRestart.CustomLoader

/-!
# Failures — mappings that fail while the interpreter is loaded

Each call of `map_elf_interpreter_load_segment` returns a null pointer if one of its mappings fails, but
the loop looks at what the first of these calls returns, and at no other.
-/

namespace CkptRestart

open Lib

/-- Linux maps nothing at the address 0. -/
def RefusesNull (env : LoaderEnv) : Prop :=
  ∀ n s c, c.addr = 0 → (env.kernels n).refusesMmap s c ≠ none

/-- A mapping of the first segment fails. -/
def FirstSegmentFails (calls : List MapEvent) : Prop :=
  ∃ first ∈ calls.head?, ∃ e ∈ calls, e.header = first.header ∧ e.ret = mapFailed

/-- If a mapping fails, the base in the result is null. -/
def ReportsFailure (info : DynObjInfo) (calls : List MapEvent) : Prop :=
  (∃ e ∈ calls, e.ret = mapFailed) → info.baseAddr = 0

section Failures

variable {env : LoaderEnv} {content : List UInt8}

/-- What the wrapper returns is not null. -/
theorem Loader.mmapWrapper_ne_zero (hnull : RefusesNull env) {c : MmapCall} {ld ld' : Loader}
    {ret : Nat} (h : ld.mmapWrapper env content c = .ok (ret, ld')) : ret ≠ 0 := by
  rcases Loader.mmapWrapper_ok h with ⟨_, _, _, _, rfl⟩
  rcases mmapWrapper_cases ld.table c (env.mmap content ld.calls.length ld.space c).1 with
    ⟨_, hfailed, _⟩ | ⟨r, hmap, hret, _⟩
  · rw [hfailed]
    decide
  · rw [hret]
    rcases LoaderEnv.mmap_cases env content ld.calls.length ld.space c with
      ⟨hfailed, _⟩ | ⟨_, hanswer, hgrants, _⟩
    · simp [mappedBy, hfailed] at hmap
    · -- a mapping at the address 0 is refused
      intro hzero
      apply hnull ld.calls.length ld.space c ?_ hgrants
      rcases Option.ite_none_right_eq_some.1 hmap with ⟨_, heq⟩
      rw [← hanswer, ← hzero, ← Option.some.inj heq]

/-- What one segment adds to the record, and what its mappings have to do with the result. -/
structure SegmentCalls (ld ld' : Loader) (rc : Nat) (events : List MapEvent) : Prop where
  calls : ld'.calls = ld.calls ++ events
  nonempty : events ≠ []
  header : ∀ e ∈ events, e.header = ld.header
  failed : (∃ e ∈ events, e.ret = mapFailed) → rc = 0
  mapped : ld.firstTime = true → (∀ e ∈ events, e.ret ≠ mapFailed) → rc ≠ 0

/-- A mapping has failed, and the result is null. -/
theorem segmentCalls_failed {ld ld' : Loader} {events : List MapEvent}
    (hcalls : ld'.calls = ld.calls ++ events) (hheader : ∀ e ∈ events, e.header = ld.header)
    (hfailed : ∃ e ∈ events, e.ret = mapFailed) : SegmentCalls ld ld' 0 events := by
  rcases hfailed with ⟨e, he, hret⟩
  exact ⟨hcalls, List.ne_nil_of_mem he, hheader, fun _ => rfl, fun _ hall => absurd hret (hall e he)⟩

/-- No mapping has failed, and the result is the base. -/
theorem segmentCalls_mapped {ld ld' : Loader} {rc : Nat} {events : List MapEvent}
    (hcalls : ld'.calls = ld.calls ++ events) (hne : events ≠ [])
    (hheader : ∀ e ∈ events, e.header = ld.header) (hall : ∀ e ∈ events, e.ret ≠ mapFailed)
    (hfirst : ld'.firstTime = ld.firstTime) (hrc : rc ≠ 0) :
    SegmentCalls ld (ld'.fixBase rc) (ld'.fixBase rc).baseAddress events := by
  refine ⟨(Loader.calls_fixBase _ _).trans hcalls, hne, hheader, ?_, ?_⟩
  · rintro ⟨e, he, hfailed⟩
    exact absurd hfailed (hall e he)
  · intro hfirstTime _
    rw [Loader.baseAddress_fixBase, hfirst, hfirstTime, if_pos rfl]
    exact hrc

theorem mapElfInterpreterLoadSegment_calls (hnull : RefusesNull env) {phdr : Elf64Phdr}
    {ld ld' : Loader} {rc : Nat}
    (h : mapElfInterpreterLoadSegment env content phdr ld = .ok (rc, ld')) :
    ∃ events, SegmentCalls ld ld' rc events := by
  unfold mapElfInterpreterLoadSegment at h
  split at h
  · cases h
  split at h
  · cases h
  rcases Exec.bind_eq_ok_iff.1 h with ⟨⟨rc₁, ld₁⟩, hfile, hrest⟩
  rcases Loader.mmapWrapper_ok hfile with ⟨hcalls₁, hheader₁, _, hfirst₁, _⟩
  simp only [Loader.calls_setBase, Loader.header_setBase] at hcalls₁ hheader₁
  rw [Loader.firstTime_setBase] at hfirst₁
  dsimp only at hrest
  by_cases hfailed₁ : rc₁ = mapFailed
  · rw [if_pos hfailed₁] at hrest
    cases hrest
    exact ⟨_, segmentCalls_failed hcalls₁ (by simp) ⟨_, List.mem_singleton_self _, hfailed₁⟩⟩
  rw [if_neg hfailed₁] at hrest
  rcases Exec.bind_eq_ok_iff.1 hrest with ⟨ld₂, hclear, hrest⟩
  rcases Loader.clearBss_ok hclear with ⟨space, rfl⟩
  rcases Exec.bind_eq_ok_iff.1 hrest with ⟨⟨rc₂, ld₂⟩, hbss, hlast⟩
  dsimp only at hlast
  -- the first mapping is made; what is left is the second one, if there is one
  have hne₁ := Loader.mmapWrapper_ne_zero hnull hfile
  unfold Loader.mapBss at hbss
  split at hbss
  · -- two mappings
    rcases Loader.mmapWrapper_ok hbss with ⟨hcalls₂, _, _, hfirst₂, _⟩
    have hne₂ := Loader.mmapWrapper_ne_zero hnull hbss
    rw [hcalls₁, List.append_assoc] at hcalls₂
    by_cases hfailed₂ : rc₂ = mapFailed
    · rw [if_pos hfailed₂] at hlast
      cases hlast
      exact ⟨_, segmentCalls_failed hcalls₂ (by simp [hheader₁])
        ⟨_, List.mem_append_right _ (List.mem_singleton_self _), hfailed₂⟩⟩
    · rw [if_neg hfailed₂] at hlast
      cases hlast
      refine ⟨_, segmentCalls_mapped hcalls₂ (by simp) (by simp [hheader₁]) ?_
        (hfirst₂.trans hfirst₁) hne₂⟩
      simp [hfailed₁, hfailed₂]
  · -- one mapping
    cases hbss
    rw [if_neg hfailed₁] at hlast
    cases hlast
    exact ⟨_, segmentCalls_mapped hcalls₁ (by simp) (by simp) (by simp [hfailed₁]) hfirst₁ hne₁⟩

/-- Before round `i`: no mapping has been made, or the result is null if and only if one of the first
segment's mappings has failed. -/
structure FailureInv (i : Nat) (st : HeaderLoop) : Prop where
  start : st.firstTime = true → st.loader.firstTime = true ∧ st.loader.calls = []
  later : st.firstTime = false → st.loader.calls ≠ [] ∧
    (st.baseAddr = 0 ↔ FirstSegmentFails st.loader.calls)
  header : ∀ e ∈ st.loader.calls, e.header < i

/-- Mappings of a later segment make no difference. -/
theorem firstSegmentFails_append {calls events : List MapEvent} {i : Nat} (hcalls : calls ≠ [])
    (hbefore : ∀ e ∈ calls, e.header < i) (hevents : ∀ e ∈ events, e.header = i) :
    FirstSegmentFails (calls ++ events) ↔ FirstSegmentFails calls := by
  cases calls with
  | nil => exact absurd rfl hcalls
  | cons first rest =>
      have hfirst := hbefore first List.mem_cons_self
      simp only [FirstSegmentFails, List.cons_append, List.head?_cons, Option.mem_some_iff]
      constructor
      · -- an event with the header of the first one is not among the new ones
        rintro ⟨f, rfl, e, he, heq, hfailed⟩
        refine ⟨first, rfl, e, ?_, heq, hfailed⟩
        rw [← List.cons_append, List.mem_append] at he
        apply he.resolve_right
        intro hnew
        have := hevents e hnew
        omega
      · rintro ⟨f, rfl, e, he, heq, hfailed⟩
        exact ⟨first, rfl, e, List.mem_append_left events he, heq, hfailed⟩

theorem firstSegmentFails_of_one {events : List MapEvent} {i : Nat} (hne : events ≠ [])
    (hevents : ∀ e ∈ events, e.header = i) :
    FirstSegmentFails events ↔ ∃ e ∈ events, e.ret = mapFailed := by
  cases events with
  | nil => exact absurd rfl hne
  | cons first rest =>
      have hfirst := hevents first List.mem_cons_self
      simp only [FirstSegmentFails, List.head?_cons, Option.mem_some_iff]
      constructor
      · rintro ⟨f, rfl, e, he, _, hfailed⟩
        exact ⟨e, he, hfailed⟩
      · rintro ⟨e, he, hfailed⟩
        exact ⟨first, rfl, e, he, by rw [hevents e he, hfirst], hfailed⟩

theorem FailureInv.loadSegment (hnull : RefusesNull env) {phdr : Elf64Phdr} {i : Nat}
    {st st' : HeaderLoop} (hinv : FailureInv i st) (hheader : st.loader.header = i)
    (h : loadSegment env content phdr st = .ok st') : FailureInv (i + 1) st' := by
  rcases Exec.bind_eq_ok_iff.1 h with ⟨⟨rc, ld⟩, hmap, hret⟩
  cases hret
  rcases mapElfInterpreterLoadSegment_calls hnull hmap with ⟨events, hsegment⟩
  have hcalls : ld.calls = st.loader.calls ++ events := hsegment.calls
  have hheader : ∀ e ∈ events, e.header = i := fun e he => (hsegment.header e he).trans hheader
  refine ⟨fun hfirst => absurd hfirst Bool.false_ne_true, fun _ => ?_, ?_⟩
  · dsimp only
    cases hfirst : st.firstTime with
    | true =>
        rcases hinv.start hfirst with ⟨hloader, hnone⟩
        rw [hnone, List.nil_append] at hcalls
        rw [hcalls, firstSegmentFails_of_one hsegment.nonempty hheader, if_pos rfl]
        refine ⟨hsegment.nonempty, ?_, hsegment.failed⟩
        -- if all mappings of the first segment were made, the base is not null
        intro hzero
        by_contra hmapped
        exact hsegment.mapped hloader (fun e he hfailed => hmapped ⟨e, he, hfailed⟩) hzero
    | false =>
        -- the result of this call is dropped
        rcases hinv.later hfirst with ⟨hsome, hiff⟩
        rw [hcalls, firstSegmentFails_append hsome hinv.header hheader, if_neg Bool.false_ne_true]
        exact ⟨by simp [hsome], hiff⟩
  · intro e he
    rw [hcalls, List.mem_append] at he
    rcases he with he | he
    · exact Nat.lt_succ_of_lt (hinv.header e he)
    · rw [hheader e he]
      exact Nat.lt_succ_self i

theorem FailureInv.loadHeader (hnull : RefusesNull env) {i : Nat} {st st' : HeaderLoop}
    (hinv : FailureInv i st) (h : loadHeader env st i = .ok st') : FailureInv (i + 1) st' := by
  simp only [CkptRestart.loadHeader] at h
  split at h
  · cases h
  split at h
  · apply FailureInv.loadSegment hnull _ _ h
    · exact ⟨hinv.start, hinv.later, hinv.header⟩
    · rfl
  · cases h
    exact ⟨hinv.start, hinv.later, fun e he => Nat.lt_succ_of_lt (hinv.header e he)⟩

/-- A loaded file: what `safeLoadLib` returns is the result of the loop. -/
theorem safeLoadLib_ok {name : List UInt8} {ld ld' : Loader} {info : DynObjInfo}
    (h : safeLoadLib env name ld = .ok (info, ld')) :
    ∃ fd st n, Exec.steps (loadHeader env) (List.range n) ⟨fd, true, 0, ld⟩ = .ok st ∧
      info.baseAddr = st.baseAddr ∧ ld' = st.loader := by
  unfold safeLoadLib at h
  split at h
  · cases h
  rcases Exec.bind_eq_ok_iff.1 h with ⟨⟨baseAddr, entry, info₁, ld₁⟩, hload, hrest⟩
  rcases Exec.bind_eq_ok_iff.1 hrest with ⟨mmapOffset, _, hrest⟩
  rcases Exec.bind_eq_ok_iff.1 hrest with ⟨sbrkOffset, _, hrest⟩
  simp only [loadElfInterpreter] at hload
  -- the three assertions on the file held
  split at hload
  · cases hload
  split at hload
  · cases hload
  split at hload
  · cases hload
  rcases Exec.bind_eq_ok_iff.1 hload with ⟨st, hsteps, hst⟩
  cases hst
  cases hrest
  refine ⟨_, st, _, hsteps, ?_, rfl⟩
  split <;> rfl

end Failures

/-- A failed mapping is reported exactly if one of the first segment's mappings has failed. -/
theorem reportsFailure_iff {env : LoaderEnv} (hnull : RefusesNull env) {name : List UInt8}
    {space : AddrSpace} {table : MmapTable} {info : DynObjInfo} {ld : Loader}
    (h : safeLoadLib env name (.start space table) = .ok (info, ld)) :
    ReportsFailure info ld.calls ↔
      ((∃ e ∈ ld.calls, e.ret = mapFailed) → FirstSegmentFails ld.calls) := by
  rcases safeLoadLib_ok h with ⟨fd, st, n, hsteps, hbase, rfl⟩
  have hinit : FailureInv 0 ⟨fd, true, 0, .start space table⟩ :=
    ⟨fun _ => ⟨rfl, rfl⟩, fun hfirst => absurd hfirst.symm Bool.false_ne_true,
      fun e he => absurd he List.not_mem_nil⟩
  have hinv := Exec.steps_range_of_ok (fun i _ _ _ hinv hstep => hinv.loadHeader hnull hstep) hinit
    hsteps
  rw [ReportsFailure, hbase]
  cases hfirst : st.firstTime with
  | true =>
      -- a file without segments: nothing is mapped
      have hnone := (hinv.start hfirst).2
      simp [hnone]
  | false => rw [(hinv.later hfirst).2]

/-! ## Two segments -/

/-- A kernel that maps nothing at the address 0. -/
def Kernel.noNull : Kernel :=
  { Kernel.plain with refusesMmap := fun _ c => if c.addr = 0 then some .EPERM else none }

/-- The call of this index fails. -/
def failAt (index n : Nat) : Kernel :=
  if n = index then { Kernel.plain with refusesMmap := fun _ _ => some .ENOMEM } else .noNull

theorem refusesNull_failAt (index : Nat) (content : List UInt8) :
    RefusesNull (smallEnv (failAt index) content) := by
  intro n s c hzero
  by_cases hn : n = index <;> simp [smallEnv, failAt, Kernel.noNull, hn, hzero]

/-- The result of a run, and the calls it has made. -/
def loaded (x : Exec (DynObjInfo × Loader)) : Option (DynObjInfo × List MapEvent) :=
  match x with
  | .ok (info, ld) => some (info, ld.calls)
  | _ => none

theorem exists_of_loaded {x : Exec (DynObjInfo × Loader)} {info : DynObjInfo}
    {calls : List MapEvent} (h : loaded x = some (info, calls)) :
    ∃ ld, x = .ok (info, ld) ∧ ld.calls = calls := by
  cases x with
  | running => cases h
  | exited => cases h
  | ok r =>
      cases h
      exact ⟨r.2, rfl, rfl⟩

def smallLdRun (index : Nat) : Exec (DynObjInfo × Loader) :=
  safeLoadLib (smallEnv (failAt index) (smallLd 0)) smallLibName (.start emptySpace .initial)

/-- What is in the record of a run in which the call `index` fails. -/
def smallLdCalls (index : Nat) : List MapEvent :=
  [⟨0, fileCall 3 0x1c0000000 ⟨ptLoad, pfR ||| pfX, 0, 0, 467, 467, pageSize⟩,
      if index = 0 then mapFailed else 0x1c0000000⟩,
    ⟨1, fileCall 3 0x1c0000000 ⟨ptLoad, pfR ||| pfW, 0, pageSize, 467, 467, pageSize⟩,
      if index = 1 then mapFailed else 0x1c0001000⟩]

/-- The first mapping fails, and the result is null. -/
theorem reportsFailure_first :
    ∃ info ld, smallLdRun 0 = .ok (info, ld) ∧ (∃ e ∈ ld.calls, e.ret = mapFailed) ∧
      ReportsFailure info ld.calls := by
  have hrun : loaded (smallLdRun 0) = some (⟨0, 0, 2, 64, 0, 0x100⟩, smallLdCalls 0) := by
    decide +kernel
  rcases exists_of_loaded hrun with ⟨ld, hload, hcalls⟩
  refine ⟨_, ld, hload, ?_, (reportsFailure_iff (refusesNull_failAt 0 (smallLd 0)) hload).2 fun _ => ?_⟩
  · rw [hcalls]
    exact ⟨_, List.mem_cons_self, rfl⟩
  · rw [hcalls]
    exact ⟨_, rfl, _, List.mem_cons_self, rfl, rfl⟩

/-- The second segment is not mapped, and the base in the result is not null. -/
theorem not_reportsFailure_second :
    RefusesNull (smallEnv (failAt 1) (smallLd 0)) ∧
      ∃ info ld, smallLdRun 1 = .ok (info, ld) ∧ (∃ e ∈ ld.calls, e.ret = mapFailed) ∧
        info.baseAddr = 0x1c0000000 ∧ ¬ ReportsFailure info ld.calls := by
  have hrun : loaded (smallLdRun 1) = some (⟨0x1c0000000, 0x1c0000000, 2, 0x1c0000040, 0x1c0000000,
      0x1c0000100⟩, smallLdCalls 1) := by
    decide +kernel
  rcases exists_of_loaded hrun with ⟨ld, hload, hcalls⟩
  have hfails : ∃ e ∈ ld.calls, e.ret = mapFailed := by
    rw [hcalls]
    exact ⟨_, List.mem_cons_of_mem _ List.mem_cons_self, rfl⟩
  refine ⟨refusesNull_failAt 1 _, _, ld, hload, hfails, rfl, fun hreports => ?_⟩
  exact absurd (hreports hfails) (by decide)

end CkptRestart
