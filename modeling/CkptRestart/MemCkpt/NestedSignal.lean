import CkptRestart.MemCkpt.Handler

/-!
# NestedSignal — a checkpoint signal during `doCheckpoint`

While the signal runs the handler, the signal is masked; while `doCheckpoint` runs it, it is not.
Here a call of `doCheckpoint` is taken apart into its steps, down to the single `write`, and a whole
run of the handler may come between any two of them.  The two runs share the image file, through
different descriptors, and the variable `state`.  No system call fails.

`completes_of_quiet` says that a signal does no harm outside the time from the first byte written to
the change of `state` to `POST_RESUME`; `not_completes_lateSignal` is a signal inside it.
-/

namespace CkptRestart
namespace NestedSignal

open Lib CkptOrRestore

/-! ## The steps of `doCheckpoint` -/

inductive Pc
  | openFile
  | getContext
  | testState
  | setRestart
  | copy (pending : List (List UInt8))
  | close
  | setResume
  | resetWrappers
  | readState
  | resetState (tempState : CkptOrRestore)
  | returned (ret : CkptOrRestore)

/-- The call in progress: the process, the image file, the offset of the descriptor, and the
contexts that any run of the handler has copied so far. -/
structure World where
  pc : Pc
  proc : Proc
  file : Option (List UInt8)
  offset : Nat
  copied : List CkptRestartState

def start (p : Proc) (file : Option (List UInt8)) : World where
  pc := .openFile
  proc := { p with state := RUNNING }
  file := file
  offset := 0
  copied := []

/-- The buffers left when `k` bytes of the first one are written. -/
def pendingAfter (buf : List UInt8) (k : Nat) (bufs : List (List UInt8)) : List (List UInt8) :=
  if k = buf.length then bufs else buf.drop k :: bufs

inductive Event
  | advance
  | signal (c : HandlerCalls)

/-- One step of the call, whose own context is `st`, or a whole run of the handler for a signal. -/
inductive Step (st : CkptRestartState) : World → Event → World → Prop
  | openFile {w : World} (hpc : w.pc = .openFile) :
      Step st w .advance { w with pc := .getContext, file := some [], offset := 0 }
  | getContext {w : World} (hpc : w.pc = .getContext) :
      Step st w .advance { w with pc := .testState }
  | checkpoint {w : World} (hpc : w.pc = .testState)
      (hstate : w.proc.state = RUNNING ∨ w.proc.state = POST_RESUME) :
      Step st w .advance { w with pc := .setRestart }
  | restarted {w : World} (hpc : w.pc = .testState) (hstate : w.proc.state = POST_RESTART) :
      Step st w .advance { w with pc := .resetWrappers }
  | setRestart {w : World} (hpc : w.pc = .setRestart) :
      Step st w .advance
        { w with
          pc := .copy (imageBuffers st w.proc.mem w.proc.records)
          proc := { w.proc with state := POST_RESTART }
          copied := st :: w.copied }
  -- one call of `write` for the rest of the first buffer, which takes any part of it
  | write {w : World} {buf : List UInt8} {bufs : List (List UInt8)} {k : Nat}
      (hpc : w.pc = .copy (buf :: bufs)) (hpos : 0 < k) (hle : k ≤ buf.length) :
      Step st w .advance
        { w with
          pc := .copy (pendingAfter buf k bufs)
          file := w.file.map fun f => overwrite 0 f w.offset (buf.take k)
          offset := w.offset + k }
  -- `writeAll` calls `write` for an empty buffer too
  | writeEmpty {w : World} {bufs : List (List UInt8)} (hpc : w.pc = .copy ([] :: bufs)) :
      Step st w .advance { w with pc := .copy bufs }
  | copied {w : World} (hpc : w.pc = .copy []) : Step st w .advance { w with pc := .close }
  | close {w : World} (hpc : w.pc = .close) : Step st w .advance { w with pc := .setResume }
  | setResume {w : World} (hpc : w.pc = .setResume) :
      Step st w .advance
        { w with pc := .readState, proc := { w.proc with state := POST_RESUME } }
  | resetWrappers {w : World} (hpc : w.pc = .resetWrappers) :
      Step st w .advance { w with pc := .readState, proc := CkptRestart.resetWrappers w.proc }
  | readState {w : World} (hpc : w.pc = .readState) :
      Step st w .advance { w with pc := .resetState w.proc.state }
  | resetState {w : World} {tempState : CkptOrRestore} (hpc : w.pc = .resetState tempState) :
      Step st w .advance
        { w with
          pc := .returned tempState
          proc := if tempState = POST_RESTART ∨ tempState = POST_RESUME
            then { w.proc with state := RUNNING } else w.proc }
  -- the handler runs to its end, and none of its calls fails
  | signal {w : World} {c : HandlerCalls} {ctx : UContext} {out : HandlerOut}
      (hopen : c.opens = true) (hctx : c.context = some ctx) (hmaps : c.mapsOpens = true)
      (hwrites : Delivers retries c.writes (imageRequests w.proc.records))
      (hrun : checkpointHandler c w.proc w.file = .ok out) :
      Step st w (.signal c)
        { w with
          proc := out.proc
          file := out.file
          copied := (out.saved.map Saved.st).toList ++ w.copied }

/-- The image file is a complete image with one of the contexts that were copied. -/
def HoldsCopied (p : Proc) (w : World) : Prop :=
  ∃ s ∈ w.copied, w.file = some (imageBytes s p.mem p.records)

def Completes (p : Proc) (w : World) : Prop := w.pc = .returned POST_RESUME → HoldsCopied p w

/-! ## The nested run -/

/-- A nested run takes a checkpoint of its own, or empties the file. -/
theorem nested_spec {c : HandlerCalls} {ctx : UContext} {p : Proc} {file : Option (List UInt8)}
    {out : HandlerOut} (hopen : c.opens = true) (hctx : c.context = some ctx)
    (hmaps : c.mapsOpens = true) (hwrites : Delivers retries c.writes (imageRequests p.records))
    (hrun : checkpointHandler c p file = .ok out) :
    (p.state ≠ POST_RESTART ∧ out.proc = { p with state := POST_RESUME } ∧
      out.file = some (imageBytes (c.savedState ctx) p.mem p.records) ∧
      (out.saved.map Saved.st).toList = [c.savedState ctx]) ∨
    (p.state = POST_RESTART ∧ out.proc = resetWrappers p ∧ out.file = some [] ∧
      (out.saved.map Saved.st).toList = []) := by
  by_cases hstate : p.state = POST_RESTART
  · right
    rcases checkpointHandler_cases hrun with
      ⟨hclosed, _⟩ | ⟨_, hnone, _⟩ | ⟨_, _, _, htook⟩ | ⟨_, _, _, _, rfl⟩
    · simp [hopen] at hclosed
    · simp [hctx] at hnone
    · exact absurd hstate htook.state
    · exact ⟨hstate, rfl, rfl, rfl⟩
  · left
    rcases checkpointHandler_succeeds file hopen hctx hmaps hwrites hstate with
      ⟨out', hrun', htook, hfile⟩
    obtain rfl : out' = out := Exec.ok.inj (hrun'.symm.trans hrun)
    exact ⟨hstate, htook.proc, hfile, by simp [htook.saved]⟩

/-! ## The invariant -/

section Invariant

variable (p : Proc) (st : CkptRestartState)

/-- The file while the call copies: as far as the offset it agrees with the image, of which
`pending` is the rest. -/
structure Copying (w : World) (pending : List (List UInt8)) (f : List UInt8) : Prop where
  file : w.file = some f
  length_le : f.length ≤ (imageBytes st p.mem p.records).length
  agrees : f.take w.offset = (imageBytes st p.mem p.records).take w.offset
  offset_le : w.offset ≤ (imageBytes st p.mem p.records).length
  pending : (imageBytes st p.mem p.records).drop w.offset = pending.flatten

/-- What holds before each step of the call. -/
def At (w : World) : Pc → Prop
  | .openFile => w.proc.state ≠ POST_RESTART
  | .getContext | .testState | .setRestart =>
      w.proc.state ≠ POST_RESTART ∧ w.offset = 0 ∧
        ∃ f, w.file = some f ∧ f.length ≤ (imageBytes st p.mem p.records).length
  | .copy pending =>
      w.proc.state = POST_RESTART ∧ st ∈ w.copied ∧ ∃ f, Copying p st w pending f
  | .close | .setResume => w.proc.state = POST_RESTART ∧ HoldsCopied p w
  | .resetWrappers => False
  | .readState => w.proc.state = POST_RESUME ∧ HoldsCopied p w
  | .resetState tempState =>
      tempState = POST_RESUME ∧ w.proc.state = POST_RESUME ∧ HoldsCopied p w
  | .returned ret => ret = POST_RESUME ∧ w.proc.state ≠ POST_RESTART ∧ HoldsCopied p w

/-- The mappings and the tracked list do not change while the call runs. -/
structure CallInv (w : World) : Prop where
  mem : w.proc.mem = p.mem
  fnc : w.proc.fnc = p.fnc
  atPc : At p st w w.pc

variable {p st}

theorem CallInv.records {w : World} (h : CallInv p st w) : w.proc.records = p.records := by
  simp [Proc.records, h.mem, h.fnc]

/-- From the first byte written to the change of `state` to `POST_RESUME`. -/
def InWindow (w : World) : Prop :=
  match w.pc with
  | .copy _ => 0 < w.offset
  | .close => True
  | .setResume => True
  | _ => False

theorem pendingAfter_flatten {buf : List UInt8} {k : Nat} (bufs : List (List UInt8)) :
    buf.take k ++ (pendingAfter buf k bufs).flatten = (buf :: bufs).flatten := by
  by_cases hk : k = buf.length
  · simp [pendingAfter, hk]
  · simp [pendingAfter, hk, ← List.append_assoc]

/-- One more write, anywhere in a buffer. -/
theorem Copying.write {w : World} {buf : List UInt8} {bufs : List (List UInt8)} {f : List UInt8}
    {k : Nat} (h : Copying p st w (buf :: bufs) f) (hle : k ≤ buf.length) :
    ∃ f', Copying p st
      { w with
        pc := .copy (pendingAfter buf k bufs)
        file := w.file.map fun f => overwrite 0 f w.offset (buf.take k)
        offset := w.offset + k } (pendingAfter buf k bufs) f' := by
  have hlen : (buf.take k).length = k := List.length_take_of_le hle
  have hnext : (imageBytes st p.mem p.records).drop w.offset =
      buf.take k ++ (pendingAfter buf k bufs).flatten := by
    rw [pendingAfter_flatten]
    exact h.pending
  have hover := overwrite_agrees (0 : UInt8) h.agrees h.length_le h.offset_le hnext
  rw [hlen] at hover
  refine ⟨_, by simp [h.file], hover.2, hover.1, ?_, ?_⟩
  · have hroom := congrArg List.length hnext
    rw [List.length_drop, List.length_append, hlen] at hroom
    have := h.offset_le
    show w.offset + k ≤ _
    omega
  · show (imageBytes st p.mem p.records).drop (w.offset + k) = _
    rw [← List.drop_drop, hnext]
    exact List.drop_left' hlen

/-- With nothing left to write the file is the image. -/
theorem Copying.done {w : World} {f : List UInt8} (h : Copying p st w [] f) :
    f = imageBytes st p.mem p.records := by
  have hall : (imageBytes st p.mem p.records).length ≤ w.offset :=
    List.drop_eq_nil_iff.1 (by simpa using h.pending)
  have hagrees := h.agrees
  rwa [List.take_of_length_le (le_trans h.length_le hall), List.take_of_length_le hall] at hagrees

theorem callInv_advance {w w' : World} (hinv : CallInv p st w) (h : Step st w .advance w') :
    CallInv p st w' := by
  rcases hinv with ⟨hmem, hfnc, hat⟩
  have hrecords : w.proc.records = p.records := by simp [Proc.records, hmem, hfnc]
  cases h with
  | openFile hpc =>
      rw [hpc] at hat
      exact ⟨hmem, hfnc, hat, rfl, [], rfl, Nat.zero_le _⟩
  | getContext hpc =>
      rw [hpc] at hat
      exact ⟨hmem, hfnc, hat⟩
  | checkpoint hpc hstate =>
      rw [hpc] at hat
      exact ⟨hmem, hfnc, hat⟩
  | restarted hpc hstate =>
      rw [hpc] at hat
      exact absurd hstate hat.1
  | setRestart hpc =>
      rw [hpc] at hat
      rcases hat with ⟨_, hoffset, f, hfile, hlen⟩
      refine ⟨hmem, hfnc, rfl, List.mem_cons_self, f, hfile, hlen, ?_, ?_, ?_⟩
      · simp [hoffset]
      · simp [hoffset]
      · simp [hoffset, hmem, hrecords, flatten_imageBuffers]
  | write hpc hpos hle =>
      rw [hpc] at hat
      rcases hat with ⟨hstate, hst, f, hcopying⟩
      exact ⟨hmem, hfnc, hstate, hst, hcopying.write hle⟩
  | writeEmpty hpc =>
      rw [hpc] at hat
      rcases hat with ⟨hstate, hst, f, hcopying⟩
      exact ⟨hmem, hfnc, hstate, hst, f, hcopying.file, hcopying.length_le, hcopying.agrees,
        hcopying.offset_le, by simpa using hcopying.pending⟩
  | copied hpc =>
      rw [hpc] at hat
      rcases hat with ⟨hstate, hst, f, hcopying⟩
      exact ⟨hmem, hfnc, hstate, st, hst, hcopying.done ▸ hcopying.file⟩
  | close hpc =>
      rw [hpc] at hat
      exact ⟨hmem, hfnc, hat⟩
  | setResume hpc =>
      rw [hpc] at hat
      exact ⟨hmem, hfnc, rfl, hat.2⟩
  | resetWrappers hpc =>
      rw [hpc] at hat
      exact absurd hat id
  | readState hpc =>
      rw [hpc] at hat
      exact ⟨hmem, hfnc, hat.1, hat⟩
  | resetState hpc =>
      rw [hpc] at hat
      rcases hat with ⟨rfl, hstate, hholds⟩
      exact ⟨hmem, hfnc, rfl, by simp, hholds⟩

/-- What a run of the handler leaves when it returns to the interrupted call. -/
def World.afterSignal (w : World) (out : HandlerOut) : World :=
  { w with
    proc := out.proc
    file := out.file
    copied := (out.saved.map Saved.st).toList ++ w.copied }

/-- A nested run that takes a checkpoint, of the length that the call's own will have, keeps it. -/
theorem callInv_took {w : World} {out : HandlerOut} {s : CkptRestartState} (hinv : CallInv p st w)
    (hstate : w.proc.state ≠ POST_RESTART)
    (hproc : out.proc = { w.proc with state := POST_RESUME })
    (hfile : out.file = some (imageBytes s w.proc.mem w.proc.records))
    (hsaved : (out.saved.map Saved.st).toList = [s]) : CallInv p st (w.afterSignal out) := by
  have hrecords := hinv.records
  rcases hinv with ⟨hmem, hfnc, hat⟩
  have hsize : (imageBytes s w.proc.mem w.proc.records).length ≤
      (imageBytes st p.mem p.records).length := by
    rw [length_imageBytes, length_imageBytes, hrecords]
  have hholds : HoldsCopied p (w.afterSignal out) :=
    ⟨s, by simp [World.afterSignal, hsaved],
      by simp [World.afterSignal, hfile, hmem, hrecords]⟩
  have hne : (w.afterSignal out).proc.state = POST_RESUME := congrArg Proc.state hproc
  refine ⟨(congrArg Proc.mem hproc).trans hmem, (congrArg Proc.fnc hproc).trans hfnc, ?_⟩
  have hpc' : (w.afterSignal out).pc = w.pc := rfl
  rw [hpc']
  cases hpc : w.pc <;> rw [hpc] at hat
  case openFile => simp [At, hne]
  -- the call finds the other image where it left an empty file, and writes over it
  case getContext => exact ⟨by simp [hne], hat.2.1, _, hfile, hsize⟩
  case testState => exact ⟨by simp [hne], hat.2.1, _, hfile, hsize⟩
  case setRestart => exact ⟨by simp [hne], hat.2.1, _, hfile, hsize⟩
  -- from here to the change of `state` a nested run takes no checkpoint
  case copy => exact absurd hat.1 hstate
  case close => exact absurd hat.1 hstate
  case setResume => exact absurd hat.1 hstate
  case resetWrappers => exact absurd hat id
  -- the other image stands in for the call's own
  case readState => exact ⟨hne, hholds⟩
  case resetState => exact ⟨hat.1, hne, hholds⟩
  case returned => exact ⟨hat.1, by simp [hne], hholds⟩

/-- A nested run that empties the file keeps it before the first byte is written. -/
theorem callInv_emptied {w : World} {out : HandlerOut} (hinv : CallInv p st w)
    (hquiet : ¬ InWindow w) (hstate : w.proc.state = POST_RESTART)
    (hproc : out.proc = resetWrappers w.proc) (hfile : out.file = some []) :
    CallInv p st (w.afterSignal out) := by
  rcases hinv with ⟨hmem, hfnc, hat⟩
  have hkept : (w.afterSignal out).proc.state = POST_RESTART :=
    (congrArg Proc.state hproc).trans hstate
  refine ⟨(congrArg Proc.mem hproc).trans hmem, (congrArg Proc.fnc hproc).trans hfnc, ?_⟩
  have hpc' : (w.afterSignal out).pc = w.pc := rfl
  rw [hpc']
  cases hpc : w.pc <;> rw [hpc] at hat
  case copy pending =>
    have hzero : w.offset = 0 := by
      have : ¬ 0 < w.offset := by simpa [InWindow, hpc] using hquiet
      omega
    rcases hat with ⟨_, hst, f, hcopying⟩
    have hpending := hcopying.pending
    rw [hzero] at hpending
    refine ⟨hkept, List.mem_append_right _ hst, [], hfile, Nat.zero_le _, ?_,
      hcopying.offset_le, ?_⟩
    · simp [World.afterSignal, hzero]
    · simpa [World.afterSignal, hzero] using hpending
  -- in the window the call would report what the nested run has emptied
  case close => simp [InWindow, hpc] at hquiet
  case setResume => simp [InWindow, hpc] at hquiet
  -- elsewhere the state is not `POST_RESTART`
  case openFile => exact absurd hstate hat
  case getContext => exact absurd hstate hat.1
  case testState => exact absurd hstate hat.1
  case setRestart => exact absurd hstate hat.1
  case resetWrappers => exact absurd hat id
  case readState => exact absurd (hstate.symm.trans hat.1) (by decide)
  case resetState => exact absurd (hstate.symm.trans hat.2.1) (by decide)
  case returned => exact absurd hstate hat.2.1

theorem callInv_signal {w w' : World} {c : HandlerCalls} (hinv : CallInv p st w)
    (h : Step st w (.signal c) w') (hquiet : ¬ InWindow w) : CallInv p st w' := by
  cases h with
  | @signal c ctx out hopen hctx hmaps hwrites hrun =>
      rcases nested_spec hopen hctx hmaps hwrites hrun with
        ⟨hstate, hproc, hfile, hsaved⟩ | ⟨hstate, hproc, hfile, _⟩
      · exact callInv_took hinv hstate hproc hfile hsaved
      · exact callInv_emptied hinv hquiet hstate hproc hfile

end Invariant

/-! ## Runs -/

def QuietStep (st : CkptRestartState) (w : World) (e : Event) (w' : World) : Prop :=
  Step st w e w' ∧ (InWindow w → e = .advance)

theorem callInv_run {p : Proc} {st : CkptRestartState} {file : Option (List UInt8)}
    {es : List Event} {w : World} (h : Run (QuietStep st) (start p file) es w) :
    CallInv p st w := by
  have hstep : ∀ {w e w'}, CallInv p st w → QuietStep st w e w' → CallInv p st w' := by
    rintro w e w' hinv ⟨hstep, hquiet⟩
    cases e with
    | advance => exact callInv_advance hinv hstep
    | signal c => exact callInv_signal hinv hstep fun hin => by cases hquiet hin
  have hstart : CallInv p st (start p file) := ⟨rfl, rfl, by simp [At, start]⟩
  exact @Run.invariant _ _ (QuietStep st) (CallInv p st) hstep _ _ _ h hstart

/-- If no signal arrives between the first byte written and the change of `state` to `POST_RESUME`,
a call that reports a checkpoint leaves one, whatever signals arrive at other times. -/
theorem completes_of_quiet {p : Proc} {st : CkptRestartState} {file : Option (List UInt8)}
    {es : List Event} {w : World} (h : Run (QuietStep st) (start p file) es w) :
    Completes p w := by
  intro hret
  have hat := (callInv_run h).atPc
  rw [hret] at hat
  exact hat.2.2

/-! ## The steps and the function -/

def ownCalls (p : Proc) (st : CkptRestartState) : HandlerCalls where
  opens := true
  context := some st.ctx
  sp := st.sp
  fs := st.fsAddr
  mapsOpens := true
  writes := (imageRequests p.records).map .moved

/-- What holds in a call that no signal interrupts. -/
structure Alone (p : Proc) (st : CkptRestartState) (w : World) : Prop where
  call : CallInv p st w
  proc : w.proc = { p with state := w.proc.state }
  copied : ∀ s ∈ w.copied, s = st
  state : ∀ ret, w.pc = .returned ret → w.proc.state = RUNNING

theorem alone_step {p : Proc} {st : CkptRestartState} {w w' : World} (hinv : Alone p st w)
    (h : Step st w .advance w') : Alone p st w' := by
  have hcall := callInv_advance hinv.call h
  have hat := hinv.call.atPc
  rcases hinv with ⟨_, hproc, hcopied, _⟩
  -- the steps that assign to `state` change nothing else
  have hset : ∀ s, { w.proc with state := s } = { p with state := s } := by
    intro s
    rw [hproc]
  cases h with
  | setRestart hpc =>
      refine ⟨hcall, hset _, ?_, by simp⟩
      intro s hs
      rcases List.mem_cons.1 hs with rfl | hs
      · rfl
      · exact hcopied s hs
  | setResume hpc => exact ⟨hcall, hset _, hcopied, by simp⟩
  | resetWrappers hpc =>
      rw [hpc] at hat
      exact absurd hat id
  | resetState hpc =>
      rw [hpc] at hat
      rcases hat with ⟨rfl, _, _⟩
      exact ⟨hcall, by simpa using hset RUNNING, hcopied, by simp⟩
  | openFile hpc => exact ⟨hcall, hproc, hcopied, by simp⟩
  | getContext hpc => exact ⟨hcall, hproc, hcopied, by simp⟩
  | checkpoint hpc hstate => exact ⟨hcall, hproc, hcopied, by simp⟩
  | restarted hpc hstate => exact ⟨hcall, hproc, hcopied, by simp⟩
  | write hpc hpos hle => exact ⟨hcall, hproc, hcopied, by simp⟩
  | writeEmpty hpc => exact ⟨hcall, hproc, hcopied, by simp⟩
  | copied hpc => exact ⟨hcall, hproc, hcopied, by simp⟩
  | close hpc => exact ⟨hcall, hproc, hcopied, by simp⟩
  | readState hpc => exact ⟨hcall, hproc, hcopied, by simp⟩

/-- A call that no signal interrupts does what `doCheckpoint` does, in whatever pieces it writes. -/
theorem doCheckpoint_of_run {p : Proc} {st : CkptRestartState} {file : Option (List UInt8)}
    {es : List Event} {w : World} {ret : CkptOrRestore}
    (h : Run (fun w e w' => Step st w e w' ∧ e = .advance) (start p file) es w)
    (hret : w.pc = .returned ret) :
    ∃ saved, doCheckpoint (ownCalls p st) { p with state := RUNNING } file =
      .ok (ret, ⟨w.proc, w.file, saved⟩) := by
  have hstep : ∀ {w e w'}, Alone p st w → Step st w e w' ∧ e = .advance → Alone p st w' := by
    rintro w e w' hinv ⟨hstep, rfl⟩
    exact alone_step hinv hstep
  have hstart : Alone p st (start p file) :=
    ⟨⟨rfl, rfl, by simp [At, start]⟩, rfl, by simp [start], by simp [start]⟩
  have hinv := @Run.invariant _ _ _ (Alone p st) hstep _ _ _ h hstart
  have hat := hinv.call.atPc
  rw [hret] at hat
  rcases hat with ⟨rfl, _, s, hs, hfile⟩
  -- the context in the file is the call's own
  obtain rfl := hinv.copied s hs
  have hproc : w.proc = { p with state := RUNNING } := by
    rw [hinv.proc, hinv.state _ hret]
  rcases @checkpointHandler_succeeds (ownCalls p s) { p with state := RUNNING } s.ctx file rfl rfl
    rfl (delivers_moved retries _) (by simp) with ⟨out, hrun, htook, himage⟩
  refine ⟨out.saved, ?_⟩
  have hafter : afterHandler out.proc = (POST_RESUME, { p with state := RUNNING }) := by
    simp [afterHandler, htook.proc]
  simp only [doCheckpoint, hrun, Exec.ok_bind, hafter, Exec.pure_eq, hproc, hfile, himage]
  rfl

/-! ## Two calls -/

theorem quietStep_advance {st : CkptRestartState} {w w' : World} (h : Step st w .advance w') :
    QuietStep st w .advance w' := ⟨h, fun _ => rfl⟩

/-- A call that no signal interrupts any more gets to the end of its buffers. -/
theorem exists_run_copied {st : CkptRestartState} {w₀ : World} {bufs : List (List UInt8)}
    {es : List Event} {w : World} (hrun : Run (QuietStep st) w₀ es w) (hpc : w.pc = .copy bufs) :
    ∃ es' w', Run (QuietStep st) w₀ es' w' ∧ w'.pc = .copy [] := by
  induction bufs generalizing es w with
  | nil => exact ⟨es, w, hrun, hpc⟩
  | cons buf bufs ih =>
      cases buf with
      | nil => exact ih (hrun.snoc (quietStep_advance (.writeEmpty hpc))) rfl
      | cons b buf =>
          -- one call of `write` takes the whole buffer
          have hpos : 0 < (b :: buf).length := Nat.succ_pos _
          refine ih (hrun.snoc (quietStep_advance (.write hpc hpos le_rfl))) ?_
          simp [pendingAfter]

/-- A call of `heapProc` that returns, with a signal before it opens the file. -/
theorem completes_of_quiet_earlySignal :
    ∃ st file es w, Run (QuietStep st) (start heapProc file) es w ∧
      w.pc = .returned POST_RESUME ∧ Completes heapProc w := by
  let st : CkptRestartState := .blank
  let c : HandlerCalls := callsWriting heapWrites
  rcases @checkpointHandler_succeeds c (start heapProc none).proc st.ctx none rfl rfl rfl
    delivers_heapProc (by decide) with ⟨out, hrun, htook, _⟩
  have hsignal : QuietStep st (start heapProc none) (.signal c)
      ⟨.openFile, out.proc, out.file, 0, (out.saved.map Saved.st).toList ++ []⟩ :=
    ⟨@Step.signal st _ c st.ctx _ rfl rfl rfl delivers_heapProc hrun, by simp [InWindow, start]⟩
  have hstate : out.proc.state = RUNNING ∨ out.proc.state = POST_RESUME := by
    simp [htook.proc]
  have hopened := Run.snoc (Run.snoc (Run.snoc (Run.snoc (Run.snoc (.nil _) hsignal)
    (quietStep_advance (.openFile rfl))) (quietStep_advance (.getContext rfl)))
    (quietStep_advance (.checkpoint rfl hstate))) (quietStep_advance (.setRestart rfl))
  obtain ⟨es, w, hcopied, hpc⟩ := exists_run_copied hopened rfl
  have hreturned := Run.snoc (Run.snoc (Run.snoc (Run.snoc (Run.snoc hcopied
    (quietStep_advance (.copied hpc))) (quietStep_advance (.close rfl)))
    (quietStep_advance (.setResume rfl))) (quietStep_advance (.readState rfl)))
    (quietStep_advance (.resetState rfl))
  exact ⟨st, none, _, _, hreturned, rfl, completes_of_quiet hreturned⟩

/-- A signal after the last byte was written: the call reports a checkpoint of an empty file. -/
theorem not_completes_lateSignal :
    ¬ ∀ p st file es w, Run (Step st) (start p file) es w → Completes p w := by
  intro hall
  let st : CkptRestartState := .blank
  let c : HandlerCalls := callsWriting [.moved stateSize]
  -- up to the end of the only write
  have hbefore : Run (Step st) (start bareProc none)
      [.advance, .advance, .advance, .advance, .advance]
      ⟨.copy (pendingAfter (encodeState st) stateSize []),
        { bareProc with state := POST_RESTART },
        some (overwrite 0 [] 0 ((encodeState st).take stateSize)), stateSize, [st]⟩ :=
    .snoc (.snoc (.snoc (.snoc (.snoc (.nil _) (.openFile rfl)) (.getContext rfl))
      (.checkpoint rfl (Or.inl rfl))) (.setRestart rfl))
      (.write rfl (by decide) (le_of_eq (length_encodeState st).symm))
  have hpending : pendingAfter (encodeState st) stateSize [] = [] := by simp [pendingAfter]
  rw [hpending] at hbefore
  have hafter : Run (Step st) (start bareProc none)
      ([.advance, .advance, .advance, .advance, .advance] ++ [.signal c] ++ [.advance] ++
        [.advance] ++ [.advance] ++ [.advance] ++ [.advance])
      ⟨.returned POST_RESUME, { bareProc with state := RUNNING, initialized := false }, some [],
        stateSize, [st]⟩ :=
    .snoc (.snoc (.snoc (.snoc (.snoc (.snoc hbefore
      (@Step.signal st _ c st.ctx _ rfl rfl rfl delivers_bareProc rfl)) (.copied rfl)) (.close rfl))
      (.setResume rfl)) (.readState rfl)) (.resetState rfl)
  rcases hall _ _ _ _ _ hafter rfl with ⟨s, _, hfile⟩
  exact imageBytes_ne_nil _ _ _ (Option.some.inj hfile).symm

end NestedSignal
end CkptRestart
