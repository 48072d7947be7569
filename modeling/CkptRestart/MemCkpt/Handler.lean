import CkptRestart.MemCkpt.Write

/-!
# Handler — `checkpointHandler` and `doCheckpoint`

The handler runs for the checkpoint signal and for `doCheckpoint`.  The variable `state` decides
what it does after `getcontext`: take a checkpoint, or, in a process that was just restarted with
the value saved in the image, reset the wrappers.

`checkpointHandler_cases` says all that one run can do; `reportsOnlyImages_iff` says for which
results of the system calls `doCheckpoint` reports a checkpoint that exists.
-/

namespace CkptRestart

open Lib CkptOrRestore

/-! ## The code -/

/-- The upper half of a process.  Its own variables are kept beside its memory; `fnc` is the list
that `lhInfo.lhMmapListFptr` returns, or `none` if that pointer is null. -/
structure Proc where
  state : CkptOrRestore
  initialized : Bool
  fnc : Option (List MmapInfo)
  mem : Mem

def Proc.records (p : Proc) : List Area := selectRecords p.fnc p.mem.maps.areas

/-- The results of the system calls of one run of the handler: `open` of the image file,
`getcontext`, the two registers, `open` of the maps file, and the `write` calls. -/
structure HandlerCalls where
  opens : Bool
  context : Option UContext
  sp : Nat
  fs : Nat
  mapsOpens : Bool
  writes : List (Reply Errno)

def resetWrappers (p : Proc) : Proc := { p with initialized := false }

/-- The process at the moment its memory was copied, and the context saved with it. -/
structure Saved where
  st : CkptRestartState
  proc : Proc

/-- What a run of the handler leaves: the process, the image file, and what was copied. -/
structure HandlerOut where
  proc : Proc
  file : Option (List UInt8)
  saved : Option Saved

/-- `checkpointHandler` from the return of `getcontext` on, which is also where a restarted
process continues. -/
def afterGetcontext (c : HandlerCalls) (st : CkptRestartState) (p : Proc) (ckptfd : OutFile) :
    Exec HandlerOut :=
  if p.state = RUNNING ∨ p.state = POST_RESUME then do
    -- the state is changed before memory is copied, so the image says POST_RESTART
    let copied := { p with state := POST_RESTART }
    let st := { st with sp := c.sp, fsAddr := c.fs }
    let ckptfd ← Exec.ofOption (checkpointContext st ckptfd)
    let ckptfd ← checkpointMemory c.mapsOpens copied.mem copied.fnc ckptfd
    pure ⟨{ p with state := POST_RESUME }, some ckptfd.content, some ⟨st, copied⟩⟩
  else if p.state = POST_RESTART then
    pure ⟨resetWrappers p, some ckptfd.content, none⟩
  else
    pure ⟨p, some ckptfd.content, none⟩

/-- `checkpointHandler`; `file` is the contents of the image file, if there is one. -/
def checkpointHandler (c : HandlerCalls) (p : Proc) (file : Option (List UInt8)) :
    Exec HandlerOut :=
  if !c.opens then pure ⟨p, file, none⟩
  else
    -- O_CREAT | O_TRUNC
    match c.context with
    | none => pure ⟨p, some [], none⟩
    | some ctx => afterGetcontext c ⟨ctx, 0, 0⟩ p ⟨[], 0, c.writes⟩

/-- The rest of `doCheckpoint` after the call of the handler: its result and the process. -/
def afterHandler (p : Proc) : CkptOrRestore × Proc :=
  let tempState := p.state
  if tempState = POST_RESTART ∨ tempState = POST_RESUME then
    (tempState, { p with state := RUNNING })
  else (tempState, p)

def doCheckpoint (c : HandlerCalls) (p : Proc) (file : Option (List UInt8)) :
    Exec (CkptOrRestore × HandlerOut) := do
  let out ← checkpointHandler c p file
  pure ((afterHandler out.proc).1, { out with proc := (afterHandler out.proc).2 })

/-! ## What one run can do -/

def HandlerCalls.savedState (c : HandlerCalls) (ctx : UContext) : CkptRestartState :=
  ⟨ctx, c.sp, c.fs⟩

/-- The run that takes a checkpoint, with the writes it makes to the truncated file. -/
structure Took (c : HandlerCalls) (p : Proc) (ctx : UContext) (out : HandlerOut) : Prop where
  state : p.state ≠ POST_RESTART
  proc : out.proc = { p with state := POST_RESUME }
  saved : out.saved = some ⟨c.savedState ctx, { p with state := POST_RESTART }⟩
  file : ∃ f, writeBuffers (imageBuffers (c.savedState ctx) p.mem p.records)
    ⟨[], 0, c.writes⟩ = some f ∧ out.file = some f.content

theorem checkpoint_writes (c : HandlerCalls) (p : Proc) (st : CkptRestartState) (out : OutFile)
    (hmaps : c.mapsOpens = true) :
    (do
      let ckptfd ← Exec.ofOption (checkpointContext st out)
      checkpointMemory c.mapsOpens p.mem p.fnc ckptfd) =
      Exec.ofOption (writeBuffers (imageBuffers st p.mem p.records) out) := by
  cases hctx : writeAll (encodeState st) out with
  | none => simp [checkpointContext, imageBuffers, writeBuffers, hctx]
  | some res =>
      simp [checkpointContext, checkpointMemory, imageBuffers, writeBuffers, checkpointAreas_eq,
        Proc.records, hctx, hmaps]

/-- After `getcontext` the handler takes a checkpoint, unless the state is `POST_RESTART`. -/
theorem afterGetcontext_took {c : HandlerCalls} {p : Proc} {ctx : UContext} {out : HandlerOut}
    (hstate : p.state ≠ POST_RESTART) :
    afterGetcontext c ⟨ctx, 0, 0⟩ p ⟨[], 0, c.writes⟩ = .ok out ↔
      c.mapsOpens = true ∧ Took c p ctx out := by
  have hbranch : p.state = RUNNING ∨ p.state = POST_RESUME := by
    cases hs : p.state with
    | RUNNING => exact Or.inl rfl
    | POST_RESUME => exact Or.inr rfl
    | POST_RESTART => exact absurd hs hstate
  cases hmaps : c.mapsOpens with
  | false =>
      cases hctx : checkpointContext (c.savedState ctx) ⟨[], 0, c.writes⟩ <;>
        simp_all [afterGetcontext, checkpointMemory, HandlerCalls.savedState]
  | true =>
      have hwrites := checkpoint_writes c p (c.savedState ctx) ⟨[], 0, c.writes⟩ hmaps
      have hrun : afterGetcontext c ⟨ctx, 0, 0⟩ p ⟨[], 0, c.writes⟩ =
          ((do
            let ckptfd ← Exec.ofOption
              (checkpointContext (c.savedState ctx) ⟨[], 0, c.writes⟩)
            checkpointMemory c.mapsOpens p.mem p.fnc ckptfd) >>= fun f =>
              pure ⟨{ p with state := POST_RESUME }, some f.content,
                some ⟨c.savedState ctx, { p with state := POST_RESTART }⟩⟩) := by
        cases hctx : checkpointContext (c.savedState ctx) ⟨[], 0, c.writes⟩ <;>
          simp_all [afterGetcontext, HandlerCalls.savedState]
      rw [hrun, hwrites]
      constructor
      · intro h
        rcases Exec.bind_eq_ok_iff.1 h with ⟨f, hf, hout⟩
        obtain rfl : _ = out := by simpa using hout
        exact ⟨rfl, hstate, rfl, rfl, f, Exec.ofOption_eq_ok_iff.1 hf, rfl⟩
      · rintro ⟨_, _, hproc, hsaved, f, hf, hfile⟩
        rcases out with ⟨proc, file, saved⟩
        subst hproc hsaved hfile
        simp [hf]

/-- All that one run of the handler can do when it returns. -/
theorem checkpointHandler_cases {c : HandlerCalls} {p : Proc} {file : Option (List UInt8)}
    {out : HandlerOut} (h : checkpointHandler c p file = .ok out) :
    (c.opens = false ∧ out = ⟨p, file, none⟩) ∨
    (c.opens = true ∧ c.context = none ∧ out = ⟨p, some [], none⟩) ∨
    (∃ ctx, c.opens = true ∧ c.context = some ctx ∧ Took c p ctx out) ∨
    (∃ ctx, c.opens = true ∧ c.context = some ctx ∧ p.state = POST_RESTART ∧
      out = ⟨resetWrappers p, some [], none⟩) := by
  cases hopen : c.opens with
  | false =>
      left
      exact ⟨rfl, by simpa [checkpointHandler, hopen] using h.symm⟩
  | true =>
      right
      cases hctx : c.context with
      | none =>
          left
          exact ⟨rfl, rfl, by simpa [checkpointHandler, hopen, hctx] using h.symm⟩
      | some ctx =>
          right
          have hafter : afterGetcontext c ⟨ctx, 0, 0⟩ p ⟨[], 0, c.writes⟩ = .ok out := by
            simpa [checkpointHandler, hopen, hctx] using h
          by_cases hstate : p.state = POST_RESTART
          · right
            exact ⟨ctx, rfl, rfl, hstate, by simpa [afterGetcontext, hstate] using hafter.symm⟩
          · left
            exact ⟨ctx, rfl, rfl, ((afterGetcontext_took hstate).1 hafter).2⟩

/-- A run whose calls all succeed and that is not in `POST_RESTART` returns with the image. -/
theorem checkpointHandler_succeeds {c : HandlerCalls} {p : Proc} {ctx : UContext}
    (file : Option (List UInt8)) (hopen : c.opens = true) (hctx : c.context = some ctx)
    (hmaps : c.mapsOpens = true) (hwrites : Delivers retries c.writes (imageRequests p.records))
    (hstate : p.state ≠ POST_RESTART) :
    ∃ out, checkpointHandler c p file = .ok out ∧ Took c p ctx out ∧
      out.file = some (imageBytes (c.savedState ctx) p.mem p.records) := by
  have hdeliver : Delivers retries c.writes
      ((imageBuffers (c.savedState ctx) p.mem p.records).map List.length) := by
    rwa [map_length_imageBuffers]
  rcases @writeBuffers_of_delivers _ ⟨[], 0, c.writes⟩ rfl hdeliver with ⟨f, hf⟩
  have htook : Took c p ctx ⟨{ p with state := POST_RESUME }, some f.content,
      some ⟨c.savedState ctx, { p with state := POST_RESTART }⟩⟩ :=
    ⟨hstate, rfl, rfl, f, hf, rfl⟩
  refine ⟨_, ?_, htook, ?_⟩
  · have hafter := (afterGetcontext_took hstate).2 ⟨hmaps, htook⟩
    simpa [checkpointHandler, hopen, hctx] using hafter
  · rw [(image_written_iff hf).2 hwrites]

/-- None of the handler's system calls fails in the process `p`. -/
structure HandlerCalls.Succeed (c : HandlerCalls) (p : Proc) : Prop where
  opens : c.opens = true
  context : c.context ≠ none
  maps : c.mapsOpens = true
  writes : Delivers retries c.writes (imageRequests p.records)

/-! ## What `doCheckpoint` reports -/

/-- The image file holds the context of this run and every record of the process, whole. -/
def HoldsImage (c : HandlerCalls) (p : Proc) (file : Option (List UInt8)) : Prop :=
  ∃ ctx, c.context = some ctx ∧ file = some (imageBytes (c.savedState ctx) p.mem p.records)

/-- `doCheckpoint` returns `POST_RESUME` only if the image is there. -/
def ReportsOnlyImages (c : HandlerCalls) (p : Proc) (file : Option (List UInt8)) : Prop :=
  ∀ ret out, doCheckpoint c p file = .ok (ret, out) → ret = POST_RESUME → HoldsImage c p out.file

/-- A call of `doCheckpoint` that returns reports the truth exactly when the file could not be
opened, the context could not be read, or every request for a write was carried out in full. -/
theorem reportsOnlyImages_iff {c : HandlerCalls} {p : Proc} {file : Option (List UInt8)}
    {ret : CkptOrRestore} {out : HandlerOut} (hstate : p.state = RUNNING)
    (h : doCheckpoint c p file = .ok (ret, out)) :
    ReportsOnlyImages c p file ↔
      (c.opens = true → c.context ≠ none →
        Delivers retries c.writes (imageRequests p.records)) := by
  rcases Exec.bind_eq_ok_iff.1 h with ⟨hout, hrun, hpair⟩
  have hret : ret = (afterHandler hout.proc).1 ∧ out.file = hout.file := by
    rw [Exec.pure_eq, Exec.ok.injEq, Prod.mk.injEq] at hpair
    exact ⟨hpair.1.symm, by rw [← hpair.2]⟩
  -- the results of the system calls determine the call, so this one is every one
  have hreports : ReportsOnlyImages c p file ↔
      (ret = POST_RESUME → HoldsImage c p out.file) := by
    constructor
    · intro hall
      exact hall ret out h
    · intro hone ret' out' h'
      obtain ⟨rfl, rfl⟩ : ret = ret' ∧ out = out' := by
        simpa using h.symm.trans h'
      exact hone
  rw [hreports, hret.1, hret.2]
  rcases checkpointHandler_cases hrun with
    ⟨hopen, rfl⟩ | ⟨_, hctx, rfl⟩ | ⟨ctx, hopen, hctx, htook⟩ | ⟨_, _, _, hrestart, _⟩
  · -- nothing was opened: the state is still RUNNING
    simp [afterHandler, hstate, hopen]
  · simp [afterHandler, hstate, hctx]
  · rcases htook.file with ⟨f, hf, hfile⟩
    have hresume : (afterHandler hout.proc).1 = POST_RESUME := by
      simp [afterHandler, htook.proc]
    -- a checkpoint is reported, so the question is whether the file holds it
    have himage : HoldsImage c p hout.file ↔
        f.content = imageBytes (c.savedState ctx) p.mem p.records := by
      simp [HoldsImage, hctx, hfile]
    rw [himage, image_written_iff hf]
    simp [hresume, hopen, hctx]
  · exact absurd (hstate.symm.trans hrestart) (by decide)

/-- A process with no readable memory, about to take a checkpoint. -/
def bareProc : Proc where
  state := RUNNING
  initialized := true
  fnc := some []
  mem :=
    { maps := ⟨[], by simp, by simp, by simp, by simp, by simp⟩
      bytes := fun _ => 0 }

/-- Every call succeeds, with the given results of `write`. -/
def callsWriting (writes : List (Reply Errno)) : HandlerCalls where
  opens := true
  context := some CkptRestartState.blank.ctx
  sp := 0
  fs := 0
  mapsOpens := true
  writes := writes

theorem delivers_bareProc :
    Delivers retries [.moved stateSize] (imageRequests bareProc.records) :=
  ⟨⟨stateSize, .full, []⟩, by decide, rfl, trivial⟩

/-- A process whose heap is tracked as one region of two pages. -/
def heapProc : Proc where
  state := RUNNING
  initialized := true
  fnc := some [⟨0x10000, 0x2000⟩]
  mem := ⟨mergedHeapMaps, fun x => UInt8.ofNat x⟩

theorem records_heapProc : heapProc.records = [mergedHeap] := by decide

/-- The heap is written in two pieces, behind an interrupted call. -/
def heapWrites : List (Reply Errno) :=
  [.moved stateSize, .moved areaSize, .error .EINTR, .moved 0x1000, .moved 0x1000]

theorem delivers_heapProc : Delivers retries heapWrites (imageRequests heapProc.records) := by
  rw [records_heapProc]
  exact ⟨⟨stateSize, .full, heapWrites.drop 1⟩, by decide, rfl,
    ⟨areaSize, .full, heapWrites.drop 2⟩, by decide, rfl, ⟨0x2000, .full, []⟩, by decide, rfl, trivial⟩

theorem reportsOnlyImages_iff_heapProc :
    ∃ ret out, doCheckpoint (callsWriting heapWrites) heapProc none = .ok (ret, out) ∧
      (ReportsOnlyImages (callsWriting heapWrites) heapProc none ↔
        ((callsWriting heapWrites).opens = true → (callsWriting heapWrites).context ≠ none →
          Delivers retries (callsWriting heapWrites).writes (imageRequests heapProc.records))) := by
  rcases @checkpointHandler_succeeds (callsWriting heapWrites) heapProc _ none rfl rfl rfl
    delivers_heapProc (by decide) with ⟨hout, hrun, _⟩
  have hdo : doCheckpoint (callsWriting heapWrites) heapProc none =
      .ok ((afterHandler hout.proc).1, { hout with proc := (afterHandler hout.proc).2 }) := by
    simp [doCheckpoint, hrun]
  exact ⟨_, _, hdo, reportsOnlyImages_iff rfl hdo⟩

/-- With the disk full, `doCheckpoint` reports a checkpoint and the image file is empty. -/
theorem not_reportsOnlyImages_diskFull :
    ¬ ReportsOnlyImages (callsWriting [.error .ENOSPC]) bareProc none := by
  intro h
  rcases h POST_RESUME ⟨{ bareProc with state := RUNNING }, some [], _⟩ rfl rfl with
    ⟨ctx, _, hfile⟩
  exact imageBytes_ne_nil _ _ _ (Option.some.inj hfile).symm

end CkptRestart
