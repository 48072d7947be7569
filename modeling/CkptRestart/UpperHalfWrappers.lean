import CkptRestart.LhInfoFile
import CkptRestart.Lib.Latch
import CkptRestart.MemCkpt.FsSwitch
import CkptRestart.MmapWrapper

/-!
# UpperHalfWrappers — where the calls of the upper half go

`upper-half-wrappers.c` and the MPI wrappers: each wrapper fills `lhInfo` from `addr.bin` if
`initialized` is not set, and then leaves the upper half through an address of the lower half.
`sbrk` and `mmap` take theirs from a static variable that they fill once, the MPI wrappers look
theirs up in every call.

A restart puts another lower half in place and runs `reset_wrappers`, which clears `initialized` and
nothing else.  `noStaleCall_iff` says in which histories every call still reaches the running lower
half, `consultsTracked_iff` in which of them a checkpoint asks it for its regions.
-/

namespace CkptRestart
namespace UpperHalfWrappers

open Lib FsSwitch

/-! ## The code -/

/-- The two wrappers of libc functions. -/
inductive Libc
  | sbrk
  | mmap
  deriving DecidableEq, Repr

/-- `initialized`, `lhInfo`, and the statics inside `sbrk` and `mmap`. -/
structure UpperHalf where
  initialized : Bool
  lhInfo : LowerHalfInfo
  lowerHalfSbrkWrapper : Nat
  lowerHalfMmapWrapper : Nat
  deriving DecidableEq, Repr

namespace UpperHalf

/-- `(void*)-1` in the statics means that they have not been filled. -/
def initial : UpperHalf := ⟨false, ⟨0, 0, 0, 0, 0⟩, mapFailed, mapFailed⟩

def static (u : UpperHalf) : Libc → Nat
  | .sbrk => u.lowerHalfSbrkWrapper
  | .mmap => u.lowerHalfMmapWrapper

def setStatic (u : UpperHalf) (addr : Nat) : Libc → UpperHalf
  | .sbrk => { u with lowerHalfSbrkWrapper := addr }
  | .mmap => { u with lowerHalfMmapWrapper := addr }

@[simp] theorem initialized_setStatic (u : UpperHalf) (addr : Nat) (f : Libc) :
    (u.setStatic addr f).initialized = u.initialized := by cases f <;> rfl

@[simp] theorem lhInfo_setStatic (u : UpperHalf) (addr : Nat) (f : Libc) :
    (u.setStatic addr f).lhInfo = u.lhInfo := by cases f <;> rfl

@[simp] theorem static_setStatic (u : UpperHalf) (addr : Nat) (f g : Libc) :
    (u.setStatic addr f).static g = if g = f then addr else u.static g := by
  cases f <;> cases g <;> rfl

def resetWrappers (u : UpperHalf) : UpperHalf := { u with initialized := false }

@[simp] theorem static_resetWrappers (u : UpperHalf) (f : Libc) :
    u.resetWrappers.static f = u.static f := by cases f <;> rfl

end UpperHalf

/-- The address that a lower half publishes for a libc function. -/
def published (i : LowerHalfInfo) : Libc → Nat
  | .sbrk => i.lhSbrk
  | .mmap => i.lhMmap

/-- `readLhInfoAddr` on the contents of `addr.bin`, which it unlinks. -/
def readLhInfoAddr (addrBin : Option (List UInt8)) (u : UpperHalf) :
    Exec (Option (List UInt8) × UpperHalf) :=
  match addrBin with
  | none => .exited
  | some contents =>
      if contents.length < lhInfoSize then .exited
      else pure (none, { u with lhInfo := decodeLhInfo (contents.take lhInfoSize) })

def initializeWrappers (addrBin : Option (List UInt8)) (u : UpperHalf) :
    Exec (Option (List UInt8) × UpperHalf) :=
  if !u.initialized then do
    let (addrBin, u) ← readLhInfoAddr addrBin u
    pure (addrBin, { u with initialized := true })
  else pure (addrBin, u)

/-- The body that `sbrk` and `mmap` share, up to the call: the address that it calls, the file and
the variables. -/
def callStatic (f : Libc) (addrBin : Option (List UInt8)) (u : UpperHalf) :
    Exec (Nat × Option (List UInt8) × UpperHalf) := do
  let (addrBin, u) ← initializeWrappers addrBin u
  let u := if u.static f = mapFailed then u.setStatic (published u.lhInfo f) f else u
  pure (u.static f, addrBin, u)

def sbrk (addrBin : Option (List UInt8)) (u : UpperHalf) :
    Exec (Nat × Option (List UInt8) × UpperHalf) :=
  callStatic .sbrk addrBin u

def mmap (addrBin : Option (List UInt8)) (u : UpperHalf) :
    Exec (Nat × Option (List UInt8) × UpperHalf) :=
  callStatic .mmap addrBin u

/-- A lower half in memory: the structure that it publishes, and its table `MPI_Fnc_Ptrs`. -/
structure LoadedHalf extends LowerHalf where
  mpiFncPtrs : MpiFnc → Nat
  /-- It is the address of a function. -/
  list_ne_null : info.lhMmapListFptr ≠ 0

/-- `NEXT_FUNC`: the function that it calls, and the one whose address that function returns; what is
at an address that the running lower half does not publish is not known. -/
def nextFunc (running : LoadedHalf) (lhInfo : LowerHalfInfo) (fnc : MpiFnc) : List Nat :=
  let dlsymFptr := lhInfo.lhDlsym
  if dlsymFptr = running.info.lhDlsym then [dlsymFptr, running.mpiFncPtrs fnc] else [dlsymFptr]

/-- A wrapper defined by `DEFINE_FNC`. -/
def mpiWrapper (running : LoadedHalf) (fnc : MpiFnc) (addrBin : Option (List UInt8))
    (u : UpperHalf) : Exec (List Nat × Option (List UInt8) × UpperHalf) := do
  let (addrBin, u) ← initializeWrappers addrBin u
  pure (nextFunc running u.lhInfo fnc, addrBin, u)

/-! ## A process and its lower halves -/

inductive Call
  | libc (f : Libc)
  | mpi (fnc : MpiFnc)
  deriving DecidableEq, Repr

structure Machine where
  running : LoadedHalf
  addrBin : Option (List UInt8)
  upper : UpperHalf

namespace Machine

/-- A call of a wrapper: the functions of the lower half that it enters, and the process. -/
def call (m : Machine) : Call → Exec (List Nat × Machine)
  | .libc .sbrk => do
      let (addr, addrBin, upper) ← sbrk m.addrBin m.upper
      pure ([addr], ⟨m.running, addrBin, upper⟩)
  | .libc .mmap => do
      let (addr, addrBin, upper) ← mmap m.addrBin m.upper
      pure ([addr], ⟨m.running, addrBin, upper⟩)
  | .mpi fnc => do
      let (targets, addrBin, upper) ← mpiWrapper m.running fnc m.addrBin m.upper
      pure (targets, ⟨m.running, addrBin, upper⟩)

theorem call_libc (m : Machine) (f : Libc) :
    m.call (.libc f) = (callStatic f m.addrBin m.upper >>= fun out =>
      pure ([out.1], ⟨m.running, out.2.1, out.2.2⟩)) := by cases f <;> rfl

/-- `main --restore`, up to the return of `checkpointHandler`: another lower half has published its
structure, and the variables of the upper half come out of the image. -/
def restart (m : Machine) (l : LoadedHalf) : Machine where
  running := l
  addrBin := some (writeLhInfoToFile l.info m.addrBin)
  upper := m.upper.resetWrappers

end Machine

inductive Event
  | call (c : Call)
  | restart (l : LoadedHalf)

def Machine.step (m : Machine) : Event → Exec Machine
  | .call c => do
      let (_, m) ← m.call c
      pure m
  | .restart l => pure (m.restart l)

/-- A new process, whose lower half has published its structure. -/
def launch (l : LoadedHalf) (old : Option (List UInt8)) : Machine where
  running := l
  addrBin := some (writeLhInfoToFile l.info old)
  upper := .initial

/-- The functions of a lower half that a call is meant to enter. -/
def LoadedHalf.targets (l : LoadedHalf) : Call → List Nat
  | .libc f => [published l.info f]
  | .mpi fnc => [l.info.lhDlsym, l.mpiFncPtrs fnc]

/-! ## Histories -/

/-- The lower half that runs after the events. -/
def runningAfter (l : LoadedHalf) : List Event → LoadedHalf
  | [] => l
  | .call _ :: es => runningAfter l es
  | .restart l' :: es => runningAfter l' es

/-- The calls among the events, each with the lower half that runs when it is made. -/
def callsUnder (l : LoadedHalf) : List Event → List (Call × LoadedHalf)
  | [] => []
  | .call c :: es => (c, l) :: callsUnder l es
  | .restart l' :: es => callsUnder l' es

theorem runningAfter_append (l : LoadedHalf) (es ds : List Event) :
    runningAfter l (es ++ ds) = runningAfter (runningAfter l es) ds := by
  induction es generalizing l with
  | nil => rfl
  | cons e es ih =>
      cases e with
      | call c => exact ih l
      | restart l' => exact ih l'

theorem callsUnder_append (l : LoadedHalf) (es ds : List Event) :
    callsUnder l (es ++ ds) = callsUnder l es ++ callsUnder (runningAfter l es) ds := by
  induction es generalizing l with
  | nil => rfl
  | cons e es ih =>
      cases e with
      | call c => exact congrArg ((c, l) :: ·) (ih l)
      | restart l' => exact ih l'

/-- The addresses published for `f` when it is called, in order. -/
def offered (f : Libc) (l : LoadedHalf) (es : List Event) : List Nat :=
  (callsUnder l es).filterMap fun p => if p.1 = .libc f then some (published p.2.info f) else none

/-- The lower half that ran at the last call. -/
def lastCalled (l : LoadedHalf) (es : List Event) : Option LoadedHalf :=
  (callsUnder l es).getLast?.map Prod.snd

theorem offered_call (f : Libc) (c : Call) (l : LoadedHalf) (es : List Event) :
    offered f l (es ++ [.call c]) =
      offered f l es ++ if c = .libc f then [published (runningAfter l es).info f] else [] := by
  rw [offered, callsUnder_append, List.filterMap_append]
  by_cases hc : c = .libc f <;> simp [offered, callsUnder, hc]

theorem offered_restart (f : Libc) (l l' : LoadedHalf) (es : List Event) :
    offered f l (es ++ [.restart l']) = offered f l es := by
  simp [offered, callsUnder_append, callsUnder]

theorem lastCalled_call (c : Call) (l : LoadedHalf) (es : List Event) :
    lastCalled l (es ++ [.call c]) = some (runningAfter l es) := by
  simp [lastCalled, callsUnder_append, callsUnder]

theorem lastCalled_restart (l l' : LoadedHalf) (es : List Event) :
    lastCalled l (es ++ [.restart l']) = lastCalled l es := by
  simp [lastCalled, callsUnder_append, callsUnder]

/-- The structure that is in `lhInfo` after the events. -/
def lastInfo (l : LoadedHalf) (es : List Event) : LowerHalfInfo :=
  match lastCalled l es with
  | none => ⟨0, 0, 0, 0, 0⟩
  | some l' => l'.info

/-- The process after the events: `lhInfo` is from the last call, each static has kept the first
address that it was filled with, and the structure of the running lower half is in `lhInfo` or
waits in the file. -/
structure Follows (l : LoadedHalf) (es : List Event) (m : Machine) : Prop where
  running : m.running = runningAfter l es
  waiting : m.upper.initialized = false →
    ∃ contents, m.addrBin = some contents ∧
      contents.take lhInfoSize = encodeLhInfo m.running.info
  current : m.upper.initialized = true → m.upper.lhInfo = m.running.info
  lhInfo : m.upper.lhInfo = lastInfo l es
  static : ∀ f, m.upper.static f = held mapFailed (offered f l es)

/-! ## One step -/

theorem launch_follows (l : LoadedHalf) (old : Option (List UInt8)) :
    Follows l [] (launch l old) where
  running := rfl
  waiting := fun _ => ⟨_, rfl, take_writeLhInfoToFile l.info old⟩
  current := fun h => absurd h Bool.false_ne_true
  lhInfo := rfl
  static := by
    intro f
    cases f <;> rfl

namespace Follows

variable {l : LoadedHalf} {es : List Event} {m : Machine}

/-- Every wrapper first makes `lhInfo` the structure of the running lower half. -/
theorem initializeWrappers (h : Follows l es m) :
    ∃ addrBin u, UpperHalfWrappers.initializeWrappers m.addrBin m.upper = .ok (addrBin, u) ∧
      u.initialized = true ∧ u.lhInfo = m.running.info ∧ ∀ f, u.static f = m.upper.static f := by
  cases hinit : m.upper.initialized with
  | true =>
      refine ⟨m.addrBin, m.upper, ?_, hinit, h.current hinit, fun _ => rfl⟩
      simp [UpperHalfWrappers.initializeWrappers, hinit]
  | false =>
      rcases h.waiting hinit with ⟨contents, hfile, htake⟩
      have hlen : ¬ contents.length < lhInfoSize := by
        have := congrArg List.length htake
        rw [length_encodeLhInfo, List.length_take] at this
        omega
      refine ⟨none, { m.upper with lhInfo := m.running.info, initialized := true }, ?_, rfl, rfl,
        fun f => by cases f <;> rfl⟩
      simp [UpperHalfWrappers.initializeWrappers, readLhInfoAddr, hinit, hfile, hlen, htake,
        decodeLhInfo_encodeLhInfo m.running.fits]

/-- What is left to show of a call once `lhInfo` is right: what it does to the statics. -/
theorem afterCall (h : Follows l es m) {c : Call} {addrBin : Option (List UInt8)} {u : UpperHalf}
    (hinit : u.initialized = true) (hinfo : u.lhInfo = m.running.info)
    (hstatic : ∀ f, u.static f = held mapFailed (offered f l (es ++ [.call c]))) :
    Follows l (es ++ [.call c]) ⟨m.running, addrBin, u⟩ where
  running := by
    rw [runningAfter_append]
    exact h.running
  waiting := fun hfalse => absurd (hinit.symm.trans hfalse) (by decide)
  current := fun _ => hinfo
  lhInfo := by
    rw [lastInfo, lastCalled_call, ← h.running]
    exact hinfo
  static := hstatic

/-- `sbrk` and `mmap` enter what their static has kept. -/
theorem call_libc (h : Follows l es m) (f : Libc) :
    ∃ m', m.call (.libc f) =
        .ok ([latch mapFailed (held mapFailed (offered f l es)) (published m.running.info f)], m') ∧
      Follows l (es ++ [.call (.libc f)]) m' := by
  rcases h.initializeWrappers with ⟨addrBin, u, hrun, hinit, hinfo, hstatic⟩
  -- the static after the call holds one more offer
  have hf : u.static f = held mapFailed (offered f l es) := (hstatic f).trans (h.static f)
  let u' := if u.static f = mapFailed then u.setStatic (published u.lhInfo f) f else u
  have hu' : u'.initialized = true ∧ u'.lhInfo = m.running.info ∧
      ∀ g, u'.static g = held mapFailed (offered g l (es ++ [.call (.libc f)])) := by
    have hother : ∀ g, g ≠ f →
        held mapFailed (offered g l (es ++ [.call (.libc f)])) = u.static g := by
      intro g hg
      have hcall : Call.libc f ≠ Call.libc g := fun heq => hg (Call.libc.inj heq).symm
      rw [offered_call, if_neg hcall, List.append_nil, hstatic g, h.static g]
    have hsame : held mapFailed (offered f l (es ++ [.call (.libc f)])) =
        latch mapFailed (u.static f) (published m.running.info f) := by
      rw [offered_call, if_pos rfl, held_append_singleton, hf, h.running]
    by_cases hcell : u.static f = mapFailed
    · simp only [u', if_pos hcell]
      refine ⟨by simpa using hinit, by simpa using hinfo, fun g => ?_⟩
      by_cases hg : g = f
      · subst hg
        simp [hsame, latch, hcell, hinfo]
      · simp [hg, hother g hg]
    · simp only [u', if_neg hcell]
      refine ⟨hinit, hinfo, fun g => ?_⟩
      by_cases hg : g = f
      · subst hg
        simp [hsame, latch, hcell]
      · exact (hother g hg).symm
  have htarget : u'.static f =
      latch mapFailed (held mapFailed (offered f l es)) (published m.running.info f) := by
    rw [hu'.2.2 f, offered_call, if_pos rfl, held_append_singleton, h.running]
  refine ⟨⟨m.running, addrBin, u'⟩, ?_, h.afterCall hu'.1 hu'.2.1 hu'.2.2⟩
  rw [← htarget, Machine.call_libc, callStatic, hrun]
  rfl

/-- The MPI wrappers enter the running lower half. -/
theorem call_mpi (h : Follows l es m) (fnc : MpiFnc) :
    ∃ m', m.call (.mpi fnc) = .ok (m.running.targets (.mpi fnc), m') ∧
      Follows l (es ++ [.call (.mpi fnc)]) m' := by
  rcases h.initializeWrappers with ⟨addrBin, u, hrun, hinit, hinfo, hstatic⟩
  have hkeep : ∀ f, u.static f = held mapFailed (offered f l (es ++ [.call (.mpi fnc)])) := by
    intro f
    have hcall : Call.mpi fnc ≠ Call.libc f := nofun
    rw [offered_call, if_neg hcall, List.append_nil, hstatic f, h.static f]
  refine ⟨⟨m.running, addrBin, u⟩, ?_, h.afterCall hinit hinfo hkeep⟩
  simp [Machine.call, mpiWrapper, hrun, nextFunc, hinfo, LoadedHalf.targets]

theorem call (h : Follows l es m) (c : Call) :
    ∃ targets m', m.call c = .ok (targets, m') ∧ Follows l (es ++ [.call c]) m' := by
  cases c with
  | libc f =>
      rcases h.call_libc f with ⟨m', hcall, hfollows⟩
      exact ⟨_, m', hcall, hfollows⟩
  | mpi fnc =>
      rcases h.call_mpi fnc with ⟨m', hcall, hfollows⟩
      exact ⟨_, m', hcall, hfollows⟩

theorem restart (h : Follows l es m) (l' : LoadedHalf) :
    Follows l (es ++ [.restart l']) (m.restart l') where
  running := by
    rw [runningAfter_append]
    rfl
  waiting := fun _ => ⟨_, rfl, take_writeLhInfoToFile l'.info m.addrBin⟩
  current := fun htrue => absurd htrue Bool.false_ne_true
  lhInfo := by
    rw [lastInfo, lastCalled_restart]
    exact h.lhInfo
  static := by
    intro f
    rw [offered_restart, ← h.static f]
    exact m.upper.static_resetWrappers f

end Follows

/-- No history ends the process. -/
theorem steps_follows (l : LoadedHalf) (old : Option (List UInt8)) (es : List Event) :
    ∃ m, Exec.steps Machine.step es (launch l old) = .ok m ∧ Follows l es m := by
  induction es using List.reverseRecOn with
  | nil => exact ⟨_, rfl, launch_follows l old⟩
  | append_singleton es e ih =>
      rcases ih with ⟨m, hm, hfollows⟩
      rw [Exec.steps_append_singleton, hm, Exec.ok_bind]
      cases e with
      | call c =>
          rcases hfollows.call c with ⟨targets, m', hcall, hfollows'⟩
          exact ⟨m', by simp [Machine.step, hcall], hfollows'⟩
      | restart l' => exact ⟨m.restart l', rfl, hfollows.restart l'⟩

/-! ## Calls after a restart -/

/-- A call made after the events `pre` enters the lower half that runs then. -/
def EntersRunning (l : LoadedHalf) (old : Option (List UInt8)) (pre : List Event) (c : Call) :
    Prop :=
  ∃ m m', Exec.steps Machine.step pre (launch l old) = .ok m ∧
    m.call c = .ok (m.running.targets c, m')

/-- Every call of the history enters the lower half that runs when it is made. -/
def NoStaleCall (l : LoadedHalf) (old : Option (List UInt8)) (es : List Event) : Prop :=
  ∀ pre e post, es = pre ++ e :: post → ∀ c, e = .call c → EntersRunning l old pre c

theorem entersRunning_mpi (l : LoadedHalf) (old : Option (List UInt8)) (pre : List Event)
    (fnc : MpiFnc) : EntersRunning l old pre (.mpi fnc) := by
  rcases steps_follows l old pre with ⟨m, hm, hfollows⟩
  rcases hfollows.call_mpi fnc with ⟨m', hcall, _⟩
  exact ⟨m, m', hm, hcall⟩

/-- A call of `f` goes right exactly when its static has kept what is published now. -/
theorem entersRunning_libc_iff (l : LoadedHalf) (old : Option (List UInt8)) (pre : List Event)
    (f : Libc) :
    EntersRunning l old pre (.libc f) ↔
      latch mapFailed (held mapFailed (offered f l pre)) (published (runningAfter l pre).info f) =
        published (runningAfter l pre).info f := by
  rcases steps_follows l old pre with ⟨m, hm, hfollows⟩
  rcases hfollows.call_libc f with ⟨m', hcall, _⟩
  rw [← hfollows.running]
  constructor
  · rintro ⟨n, n', hn, hncall⟩
    obtain rfl : m = n := Exec.ok.inj (hm.symm.trans hn)
    have htargets := congrArg Prod.fst (Exec.ok.inj (hcall.symm.trans hncall))
    exact List.singleton_inj.1 htargets
  · intro hkept
    refine ⟨m, m', hm, ?_⟩
    rw [hcall, hkept]
    rfl

theorem noStaleCall_call {l : LoadedHalf} {old : Option (List UInt8)} {es : List Event} {c : Call} :
    NoStaleCall l old (es ++ [.call c]) ↔ NoStaleCall l old es ∧ EntersRunning l old es c := by
  rw [NoStaleCall, Exec.forall_split_append_singleton]
  exact and_congr_right fun _ => by simp

theorem noStaleCall_restart {l l' : LoadedHalf} {old : Option (List UInt8)} {es : List Event} :
    NoStaleCall l old (es ++ [.restart l']) ↔ NoStaleCall l old es := by
  rw [NoStaleCall, Exec.forall_split_append_singleton]
  exact and_iff_left (fun _ hc => by cases hc)

/-- A call of `f` is one more offer to its static, and none to the other. -/
theorem settled_offered_libc {l : LoadedHalf} {es : List Event} {f : Libc} :
    (∀ g, Settled mapFailed (offered g l (es ++ [.call (.libc f)]))) ↔
      (∀ g, Settled mapFailed (offered g l es)) ∧
        latch mapFailed (held mapFailed (offered f l es))
          (published (runningAfter l es).info f) = published (runningAfter l es).info f := by
  constructor
  · intro hall
    have hf := hall f
    rw [offered_call, if_pos rfl, settled_append_singleton] at hf
    refine ⟨fun g => ?_, hf.2⟩
    have hg := hall g
    rw [offered_call] at hg
    exact (List.pairwise_append.1 hg).1
  · rintro ⟨hall, hkept⟩ g
    rw [offered_call]
    by_cases hg : Call.libc f = Call.libc g
    · obtain rfl := Call.libc.inj hg
      rw [if_pos rfl]
      exact settled_append_singleton.2 ⟨hall f, hkept⟩
    · rw [if_neg hg, List.append_nil]
      exact hall g

/-- No call goes to an earlier lower half exactly when, for `sbrk` and for `mmap`, each call is made
under a lower half that publishes the same address as the one of every earlier call. -/
theorem noStaleCall_iff (l : LoadedHalf) (old : Option (List UInt8)) (es : List Event) :
    NoStaleCall l old es ↔ ∀ f, Settled mapFailed (offered f l es) := by
  induction es using List.reverseRecOn with
  | nil =>
      constructor
      · intro _ f
        exact List.Pairwise.nil
      · intro _ pre e post heq
        simp at heq
  | append_singleton es e ih =>
      cases e with
      | restart l' =>
          rw [noStaleCall_restart, ih]
          simp only [offered_restart]
      | call c =>
          rw [noStaleCall_call, ih]
          cases c with
          | mpi fnc =>
              -- these look their function up in every call
              have hsame : ∀ f, offered f l (es ++ [.call (.mpi fnc)]) = offered f l es := by
                intro f
                simp [offered_call]
              simp only [hsame]
              exact and_iff_left (entersRunning_mpi l old es fnc)
          | libc f => rw [entersRunning_libc_iff, settled_offered_libc]

/-- A lower half whose functions lie after `base`. -/
def halfAt (base : Nat) (h : base + 5 < wordSize) : LoadedHalf where
  info := ⟨base + 1, base + 2, base + 3, base + 4, base + 5⟩
  fits := by constructor <;> simp only <;> omega
  mpiFncPtrs := fun _ => base
  list_ne_null := Nat.succ_ne_zero _

def firstHalf : LoadedHalf := halfAt 0x10000 (by decide)

def secondHalf : LoadedHalf := halfAt 0x20000 (by decide)

/-- `sbrk` is called, the process is restarted with another lower half, and `sbrk` is called
again. -/
theorem not_noStaleCall_sbrk :
    ¬ NoStaleCall firstHalf none
      [.call (.libc .sbrk), .restart secondHalf, .call (.libc .sbrk)] := by
  intro hall
  have hstale := hall [.call (.libc .sbrk), .restart secondHalf] _ [] rfl _ rfl
  rw [entersRunning_libc_iff] at hstale
  exact absurd hstale (by decide)

/-! ## The list that a checkpoint asks for -/

/-- What `writeRelevantMemoryRegion` gets through `lhInfo.lhMmapListFptr`: nothing if it is null, the
table of the running lower half if it is the function that this one publishes. -/
inductive Consults (m : Machine) (t : MmapTable) : Option (List MmapInfo) → Prop
  | null (h : m.upper.lhInfo.lhMmapListFptr = 0) : Consults m t none
  | running (hne : m.upper.lhInfo.lhMmapListFptr ≠ 0)
      (h : m.upper.lhInfo.lhMmapListFptr = m.running.info.lhMmapListFptr) :
      Consults m t (some (mmappedList t))

/-- A checkpoint taken now asks the running lower half, so that whatever regions it tracks are
considered. -/
def ConsultsTracked (m : Machine) : Prop :=
  m.upper.lhInfo.lhMmapListFptr = m.running.info.lhMmapListFptr ∧
    ∀ t, Consults m t (some (mmappedList t))

theorem consultsTracked_iff_pointer (m : Machine) :
    ConsultsTracked m ↔ m.upper.lhInfo.lhMmapListFptr = m.running.info.lhMmapListFptr := by
  refine ⟨And.left, fun h => ⟨h, fun t => .running ?_ h⟩⟩
  rw [h]
  exact m.running.list_ne_null

/-- After any history, a checkpoint asks the running lower half exactly when some wrapper has been
called, and the lower half that ran at the last call publishes the same function. -/
theorem consultsTracked_iff (l : LoadedHalf) (old : Option (List UInt8)) (es : List Event) :
    (∃ m, Exec.steps Machine.step es (launch l old) = .ok m ∧ ConsultsTracked m) ↔
      ∃ l', lastCalled l es = some l' ∧
        l'.info.lhMmapListFptr = (runningAfter l es).info.lhMmapListFptr := by
  rcases steps_follows l old es with ⟨m, hm, hfollows⟩
  have hpointer : (∃ n, Exec.steps Machine.step es (launch l old) = .ok n ∧ ConsultsTracked n) ↔
      (lastInfo l es).lhMmapListFptr = (runningAfter l es).info.lhMmapListFptr := by
    rw [← hfollows.lhInfo, ← hfollows.running]
    constructor
    · rintro ⟨n, hn, hconsults⟩
      obtain rfl : m = n := Exec.ok.inj (hm.symm.trans hn)
      exact hconsults.1
    · intro h
      exact ⟨m, hm, (consultsTracked_iff_pointer m).2 h⟩
  rw [hpointer, lastInfo]
  cases lastCalled l es with
  | none =>
      -- the pointer is still null
      constructor
      · intro h
        exact absurd h.symm (runningAfter l es).list_ne_null
      · rintro ⟨l', hl', _⟩
        cases hl'
  | some l' => simp

/-- A new process that has called no wrapper: its image has no regions, whatever is tracked. -/
theorem not_consultsTracked_launch :
    ∃ m, Exec.steps Machine.step [] (launch firstHalf none) = .ok m ∧ ¬ ConsultsTracked m ∧
      ∀ t fnc, Consults m t fnc → ∀ areas, selectRecords fnc areas = [] := by
  refine ⟨_, rfl, ?_, ?_⟩
  · rw [consultsTracked_iff_pointer]
    exact fun h => (launch firstHalf none).running.list_ne_null h.symm
  · intro t fnc hconsults areas
    cases hconsults with
    | null _ => exact selectRecords_none areas
    | running hne _ => exact absurd rfl hne

end UpperHalfWrappers
end CkptRestart
