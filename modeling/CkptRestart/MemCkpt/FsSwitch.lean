import CkptRestart.MemCkpt.Handler

/-!
# FsSwitch — where the checkpoint signal can land

Every wrapper is bracketed by `JUMP_TO_LOWER_HALF` and `RETURN_TO_UPPER_HALF` of `common.h`, which
save, switch and give back the fs register.  The MPI wrappers are upper-half code around two calls into
the lower half, of `lhDlsym` for the address and of the function at it; `mmapWrapper` and
`sbrkWrapper` are lower-half code from their first instruction to their last, and lower-half code
calls them too.

A handler that interrupts this saves the fs register it finds and a stack that returns to the
interrupted instruction.  `savesUpperHalf_iff` says at which points both belong to the upper half.
-/

namespace CkptRestart
namespace FsSwitch

open Lib

/-! ## Wrapper calls in progress -/

inductive MpiFnc
  | Init
  | Comm_rank
  | Send
  | Recv
  deriving DecidableEq, Repr

inductive Wrapper
  | mpi (fnc : MpiFnc)
  | mmap
  | sbrk
  deriving DecidableEq, Repr

/-- Between the two macros: what has been done last.  `NEXT_FUNC` of an MPI wrapper is in `lhDlsym`,
or has got the address from it. -/
inductive Phase
  | entered
  | saved
  | switched
  | dlsym
  | found
  | body
  | returned
  | restored
  deriving DecidableEq, Repr

/-- A call of a wrapper, with the local variable that `JUMP_TO_LOWER_HALF` declares. -/
structure Frame where
  wrapper : Wrapper
  phase : Phase
  upperHalfFs : Nat
  deriving DecidableEq, Repr

/-- The fs register and the wrapper calls in progress, the innermost first. -/
structure Thread where
  fs : Nat
  frames : List Frame
  deriving DecidableEq, Repr

inductive Half
  | upper
  | lower
  deriving DecidableEq, Repr

def Frame.half (f : Frame) : Half :=
  match f.wrapper with
  | .mpi _ => if f.phase = .dlsym ∨ f.phase = .body then .lower else .upper
  | .mmap => .lower
  | .sbrk => .lower

def Thread.pcHalf (t : Thread) : Half :=
  match t.frames with
  | [] => .upper
  | f :: _ => f.half

/-! ## Steps -/

inductive Event
  | call (w : Wrapper)
  | advance
  deriving DecidableEq, Repr

/-- The application calls any wrapper; what a wrapper runs in the lower half calls those of the
lower half. -/
def Thread.mayCall (t : Thread) (w : Wrapper) : Prop :=
  match t.frames with
  | [] => True
  | f :: _ => (f.phase = .dlsym ∨ f.phase = .body) ∧ (w = .mmap ∨ w = .sbrk)

/-- What comes behind `JUMP_TO_LOWER_HALF`. -/
def Wrapper.afterSwitch : Wrapper → Phase
  | .mpi _ => .dlsym
  | .mmap => .body
  | .sbrk => .body

theorem Wrapper.afterSwitch_cases (w : Wrapper) : w.afterSwitch = .dlsym ∨ w.afterSwitch = .body := by
  cases w with
  | mpi => exact .inl rfl
  | mmap => exact .inr rfl
  | sbrk => exact .inr rfl

/-- One step through the macros.  The register is switched only if `lhFs > 0`. -/
def Thread.advance (lhFs : Nat) (t : Thread) : Thread :=
  match t.frames with
  | [] => t
  | f :: rest =>
      match f.phase with
      | .entered => { t with frames := { f with phase := .saved, upperHalfFs := t.fs } :: rest }
      | .saved =>
          { fs := if lhFs > 0 then lhFs else t.fs
            frames := { f with phase := .switched } :: rest }
      | .switched => { t with frames := { f with phase := f.wrapper.afterSwitch } :: rest }
      | .dlsym => { t with frames := { f with phase := .found } :: rest }
      | .found => { t with frames := { f with phase := .body } :: rest }
      | .body => { t with frames := { f with phase := .returned } :: rest }
      | .returned => { fs := f.upperHalfFs, frames := { f with phase := .restored } :: rest }
      | .restored => { t with frames := rest }

inductive Step (lhFs : Nat) : Thread → Event → Thread → Prop
  | call {t : Thread} {w : Wrapper} (hcall : t.mayCall w) :
      Step lhFs t (.call w) { t with frames := ⟨w, .entered, 0⟩ :: t.frames }
  | advance (t : Thread) : Step lhFs t .advance (t.advance lhFs)

def start (upperFs : Nat) : Thread := ⟨upperFs, []⟩

/-! ## The register along a run -/

section Register

variable (upperFs lhFs : Nat)

/-- The fs register that the calls in progress leave. -/
def fsOf : List Frame → Nat
  | [] => upperFs
  | f :: rest =>
      match f.phase with
      | .entered => fsOf rest
      | .saved => fsOf rest
      | .switched => if lhFs > 0 then lhFs else fsOf rest
      | .dlsym => if lhFs > 0 then lhFs else fsOf rest
      | .found => if lhFs > 0 then lhFs else fsOf rest
      | .body => if lhFs > 0 then lhFs else fsOf rest
      | .returned => if lhFs > 0 then lhFs else fsOf rest
      | .restored => fsOf rest

/-- A call remembers the register of its caller, and only lower-half code has calls inside it, of
the lower half's own wrappers. -/
def Nested : List Frame → Prop
  | [] => True
  | f :: rest =>
      (f.phase ≠ .entered → f.upperHalfFs = fsOf upperFs lhFs rest) ∧
      (∀ g ∈ rest.head?,
        (g.phase = .dlsym ∨ g.phase = .body) ∧ (f.wrapper = .mmap ∨ f.wrapper = .sbrk)) ∧
      Nested rest

structure FsInv (t : Thread) : Prop where
  fs : t.fs = fsOf upperFs lhFs t.frames
  nested : Nested upperFs lhFs t.frames

variable {upperFs lhFs}

theorem fsInv_step {t t' : Thread} {e : Event} (hinv : FsInv upperFs lhFs t)
    (h : Step lhFs t e t') : FsInv upperFs lhFs t' := by
  rcases hinv with ⟨hfs, hnested⟩
  cases h with
  | @call w hcall =>
      refine ⟨hfs, fun hne => absurd rfl hne, ?_, hnested⟩
      intro g hg
      cases hframes : t.frames with
      | nil => simp [hframes] at hg
      | cons f rest =>
          obtain rfl : f = g := by simpa [hframes] using hg
          simpa [Thread.mayCall, hframes] using hcall
  | advance =>
      cases hframes : t.frames with
      | nil =>
          have hsame : t.advance lhFs = t := by simp [Thread.advance, hframes]
          rw [hsame]
          exact ⟨hfs, hnested⟩
      | cons f rest =>
          rw [hframes] at hfs hnested
          rcases hnested with ⟨hsaved, hcaller, hrest⟩
          -- one case per phase, as in `Thread.advance`
          cases hphase : f.phase <;> rw [hphase] at hsaved <;>
            simp only [fsOf, hphase] at hfs
          case entered =>
            -- the local variable gets the register, which is still the caller's
            exact ⟨by simpa [Thread.advance, hframes, hphase, fsOf] using hfs,
              by simpa [Thread.advance, hframes, hphase, Nested, hfs] using ⟨hcaller, hrest⟩⟩
          case saved =>
            have hcopy := hsaved (by decide)
            exact ⟨by simp [Thread.advance, hframes, hphase, fsOf, hfs],
              by simpa [Thread.advance, hframes, hphase, Nested, hcopy] using ⟨hcaller, hrest⟩⟩
          case switched =>
            have hcopy := hsaved (by decide)
            rcases f.wrapper.afterSwitch_cases with hnext | hnext <;>
              exact ⟨by simpa [Thread.advance, hframes, hphase, hnext, fsOf] using hfs,
                by simpa [Thread.advance, hframes, hphase, hnext, Nested, hcopy]
                  using ⟨hcaller, hrest⟩⟩
          case dlsym | found | body =>
            have hcopy := hsaved (by decide)
            exact ⟨by simpa [Thread.advance, hframes, hphase, fsOf] using hfs,
              by simpa [Thread.advance, hframes, hphase, Nested, hcopy] using ⟨hcaller, hrest⟩⟩
          case returned =>
            -- the register gets the local variable
            have hcopy := hsaved (by decide)
            exact ⟨by simp [Thread.advance, hframes, hphase, fsOf, hcopy],
              by simpa [Thread.advance, hframes, hphase, Nested, hcopy] using ⟨hcaller, hrest⟩⟩
          case restored =>
            exact ⟨by simpa [Thread.advance, hframes, hphase] using hfs,
              by simpa [Thread.advance, hframes, hphase] using hrest⟩

theorem fsInv_run {t : Thread} {es : List Event} (h : Run (Step lhFs) (start upperFs) es t) :
    FsInv upperFs lhFs t :=
  @Run.invariant _ _ (Step lhFs) (FsInv upperFs lhFs) fsInv_step _ _ _ h ⟨rfl, trivial⟩

end Register

/-! ## What a checkpoint saves -/

/-- Whatever checkpoint the signal takes here, the context in it has the upper half's fs register,
and the instruction that its stack returns to is in the upper half. -/
def SavesUpperHalf (upperFs : Nat) (t : Thread) : Prop :=
  ∀ (c : HandlerCalls) (p : Proc) (file : Option (List UInt8)) (out : HandlerOut) (s : Saved),
    c.fs = t.fs → checkpointHandler c p file = .ok out → out.saved = some s →
      s.st.fsAddr = upperFs ∧ t.pcHalf = .upper

theorem saved_fsAddr {c : HandlerCalls} {p : Proc} {file : Option (List UInt8)} {out : HandlerOut}
    {s : Saved} (h : checkpointHandler c p file = .ok out) (hs : out.saved = some s) :
    s.st.fsAddr = c.fs := by
  rcases checkpointHandler_cases h with
    ⟨_, rfl⟩ | ⟨_, _, rfl⟩ | ⟨ctx, _, _, htook⟩ | ⟨ctx, _, _, _, rfl⟩
  · simp at hs
  · simp at hs
  · rw [htook.saved] at hs
    rw [← Option.some.inj hs]
    rfl
  · simp at hs

theorem savesUpperHalf_iff_registers (upperFs : Nat) (t : Thread) :
    SavesUpperHalf upperFs t ↔ t.fs = upperFs ∧ t.pcHalf = .upper := by
  constructor
  · intro hsaves
    -- some checkpoint succeeds with this register
    let c : HandlerCalls := { callsWriting [.moved stateSize] with fs := t.fs }
    rcases @checkpointHandler_succeeds c bareProc _ none rfl rfl rfl delivers_bareProc (by decide)
      with ⟨out, hrun, htook, _⟩
    have hboth := hsaves c bareProc none out _ rfl hrun htook.saved
    exact ⟨(saved_fsAddr hrun htook.saved).symm.trans hboth.1, hboth.2⟩
  · rintro ⟨hfs, hpc⟩ c p file out s hc hrun hs
    exact ⟨(saved_fsAddr hrun hs).trans (hc.trans hfs), hpc⟩

/-- No wrapper is running; or just one, an MPI wrapper that has not switched the register yet, has
given it back, or has switched it to the value it had and is in neither of its two calls. -/
def SignalSafe (upperFs lhFs : Nat) (t : Thread) : Prop :=
  t.frames = [] ∨ ∃ fnc phase saved, t.frames = [⟨.mpi fnc, phase, saved⟩] ∧
    (phase = .entered ∨ phase = .saved ∨ phase = .restored ∨
      ((phase = .switched ∨ phase = .found ∨ phase = .returned) ∧ (lhFs = 0 ∨ lhFs = upperFs)))

/-- At each point of each run, the saved context belongs to the upper half exactly if the signal is
safe there. -/
theorem savesUpperHalf_iff {upperFs lhFs : Nat} {es : List Event} {t : Thread}
    (h : Run (Step lhFs) (start upperFs) es t) :
    SavesUpperHalf upperFs t ↔ SignalSafe upperFs lhFs t := by
  rw [savesUpperHalf_iff_registers]
  rcases fsInv_run h with ⟨hfs, hnested⟩
  have hswitch : (if lhFs > 0 then lhFs else upperFs) = upperFs ↔ lhFs = 0 ∨ lhFs = upperFs := by
    rcases Nat.eq_zero_or_pos lhFs with hzero | hpos
    · simp [hzero]
    · simp [hpos, Nat.ne_of_gt hpos]
  cases hframes : t.frames with
  | nil =>
      rw [hframes] at hfs
      simp [SignalSafe, Thread.pcHalf, hframes, hfs, fsOf]
  | cons f rest =>
      rcases f with ⟨w, phase, saved⟩
      rw [hframes] at hfs hnested
      cases w with
      | mpi fnc =>
          -- an MPI wrapper is nobody's callee, so it is the only frame
          have hrest : rest = [] := by
            cases rest with
            | nil => rfl
            | cons g rest =>
                rcases hnested.2.1 g rfl with ⟨_, hw | hw⟩ <;> cases hw
          subst hrest
          cases phase <;>
            simp [SignalSafe, Thread.pcHalf, Frame.half, hframes, hfs, fsOf, hswitch]
      | mmap => simp [SignalSafe, Thread.pcHalf, Frame.half, hframes]
      | sbrk => simp [SignalSafe, Thread.pcHalf, Frame.half, hframes]

/-- `MPI_Init` in the lower half moves the break, and `sbrkWrapper` is about to map the pages. -/
theorem savesUpperHalf_iff_nested :
    let t : Thread := ⟨0x5000, [⟨.mmap, .entered, 0⟩, ⟨.sbrk, .body, 0x5000⟩,
      ⟨.mpi .Init, .body, 0x7000⟩]⟩
    Run (Step 0x5000) (start 0x7000)
      [.call (.mpi .Init), .advance, .advance, .advance, .advance, .advance,
        .call .sbrk, .advance, .advance, .advance, .call .mmap] t ∧
      (SavesUpperHalf 0x7000 t ↔ SignalSafe 0x7000 0x5000 t) := by
  intro t
  have hinit : Run (Step 0x5000) (start 0x7000)
      [.call (.mpi .Init), .advance, .advance, .advance, .advance, .advance]
      ⟨0x5000, [⟨.mpi .Init, .body, 0x7000⟩]⟩ :=
    .snoc (.snoc (.snoc (.snoc (.snoc (.snoc (.nil _) (.call trivial)) (.advance _)) (.advance _))
      (.advance _)) (.advance _)) (.advance _)
  have hrun : Run (Step 0x5000) (start 0x7000)
      [.call (.mpi .Init), .advance, .advance, .advance, .advance, .advance,
        .call .sbrk, .advance, .advance, .advance, .call .mmap] t :=
    .snoc (.snoc (.snoc (.snoc (.snoc hinit (.call ⟨.inr rfl, .inr rfl⟩)) (.advance _))
      (.advance _)) (.advance _)) (.call ⟨.inr rfl, .inl rfl⟩)
  exact ⟨hrun, savesUpperHalf_iff hrun⟩

/-- The signal lands while `MPI_Recv` waits in the lower half. -/
theorem not_savesUpperHalf_recv :
    ¬ ∀ upperFs lhFs es t, Run (Step lhFs) (start upperFs) es t → SavesUpperHalf upperFs t := by
  intro hall
  have hrun : Run (Step 0x5000) (start 0x7000)
      [.call (.mpi .Recv), .advance, .advance, .advance, .advance, .advance]
      ⟨0x5000, [⟨.mpi .Recv, .body, 0x7000⟩]⟩ :=
    .snoc (.snoc (.snoc (.snoc (.snoc (.snoc (.nil _) (.call trivial)) (.advance _)) (.advance _))
      (.advance _)) (.advance _)) (.advance _)
  have hboth := (savesUpperHalf_iff_registers _ _).1 (hall _ _ _ _ hrun)
  exact absurd hboth.1 (by decide)

end FsSwitch
end CkptRestart
