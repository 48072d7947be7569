import CkptRestart.MemCkpt.Handler

/-!
# Lifecycle — checkpoints and restarts, one after the other

A process computes, takes checkpoints, and is replaced by its last image.  The handler is entered by
the signal or by `doCheckpoint`; an image remembers in its stack which of the two it was, and a
restarted process continues there.  What is asked here is what an entry does: nothing installs the
handler in the process that `--restore` starts, so there the signal itself would end the process and
`doCheckpoint` is the entry that is left.

`served_iff` says in which runs every request for a checkpoint is served: those in which no restart
is from an image that the signal has taken.
-/

namespace CkptRestart
namespace Lifecycle

open Lib CkptOrRestore

/-! ## Entries into the handler -/

inductive Entry
  | signal
  | api
  deriving DecidableEq, Repr

namespace Entry

def returnFrom : Entry → Proc → Proc
  | .signal, p => p
  | .api, p => (afterHandler p).2

/-- A fresh entry, up to the return to the application. -/
def enter (entry : Entry) (c : HandlerCalls) (p : Proc) (file : Option (List UInt8)) :
    Exec HandlerOut := do
  let out ← checkpointHandler c p file
  pure { out with proc := entry.returnFrom out.proc }

/-- The entry of the public function is a call of it. -/
theorem enter_api (c : HandlerCalls) (p : Proc) (file : Option (List UInt8)) :
    Entry.api.enter c p file = (doCheckpoint c p file >>= fun r => pure r.2) := by
  cases h : checkpointHandler c p file <;> simp [enter, doCheckpoint, returnFrom, h]

theorem state_returnFrom_api (p : Proc) : (Entry.api.returnFrom p).state = RUNNING := by
  cases h : p.state <;> simp [returnFrom, afterHandler, h]

end Entry

/-! ## The system -/

def image (s : Saved) : List UInt8 := imageBytes s.st s.proc.mem s.proc.records

/-- The running process, the image file, and the checkpoint taken last with the entry that its
stack returns to. -/
structure World where
  proc : Proc
  disk : Option (List UInt8)
  last : Option (Saved × Entry)

inductive Event
  | compute (p : Proc)
  | request (entry : Entry) (c : HandlerCalls)
  | restart (c : HandlerCalls)

/-- `installCkptHandler` in a new process. -/
def launch (p : Proc) (disk : Option (List UInt8)) : World where
  proc := { p with state := RUNNING }
  disk := disk
  last := none

/-- What is known of the last checkpoint after a run of the handler. -/
def lastAfter (w : World) (entry : Entry) (out : HandlerOut) : Option (Saved × Entry) :=
  match out.saved with
  | some s => some (s, entry)
  | none => w.last

inductive Step : World → Event → World → Prop
  /-- The application changes its memory and its mappings, but not `state`. -/
  | compute {w : World} {p : Proc} (hstate : p.state = w.proc.state) :
      Step w (.compute p) { w with proc := p }
  /-- A fresh entry, while no handler is running. -/
  | request {w : World} {entry : Entry} {c : HandlerCalls} {out : HandlerOut}
      (hrun : entry.enter c w.proc w.disk = .ok out) :
      Step w (.request entry c) ⟨out.proc, out.file, lastAfter w entry out⟩
  /-- The image on disk replaces the process, which continues after `getcontext`. -/
  | restart {w : World} {c : HandlerCalls} {s : Saved} {entry : Entry} {out : HandlerOut}
      (hlast : w.last = some (s, entry)) (hdisk : w.disk = some (image s))
      (hrun : afterGetcontext c s.st s.proc ⟨[], 0, c.writes⟩ = .ok out) :
      Step w (.restart c) { w with proc := entry.returnFrom out.proc }

/-- Every fresh entry whose system calls succeed leaves a complete image of this moment. -/
def Served (w : World) : Prop :=
  ∀ (entry : Entry) (c : HandlerCalls), c.opens = true → c.context ≠ none →
    c.mapsOpens = true → Delivers retries c.writes (imageRequests w.proc.records) →
      ∃ out, entry.enter c w.proc w.disk = .ok out ∧ HoldsImage c w.proc out.file

/-! ## One entry -/

/-- Requests are served in every state but `POST_RESTART`. -/
theorem served_iff_state (w : World) : Served w ↔ w.proc.state ≠ POST_RESTART := by
  constructor
  · intro hserved hstate
    -- an entry all of whose calls succeed empties the file
    let c := callsWriting ((imageRequests w.proc.records).map Reply.moved)
    have hwrites : Delivers retries c.writes (imageRequests w.proc.records) :=
      delivers_moved retries _
    rcases hserved .api c rfl (by simp [c, callsWriting]) rfl hwrites with
      ⟨out, hout, ctx, _, himage⟩
    have hempty : out.file = some [] := by
      have hrun : Entry.api.enter c w.proc w.disk =
          .ok ⟨Entry.api.returnFrom (resetWrappers w.proc), some [], none⟩ := by
        simp [Entry.enter, checkpointHandler, afterGetcontext, c, callsWriting, hstate]
      rw [hrun] at hout
      exact (congrArg HandlerOut.file (Exec.ok.inj hout)).symm
    exact imageBytes_ne_nil _ _ _ (Option.some.inj (hempty.symm.trans himage)).symm
  · intro hstate entry c hopen hctx hmaps hwrites
    rcases Option.ne_none_iff_exists'.1 hctx with ⟨ctx, hctx⟩
    rcases checkpointHandler_succeeds w.disk hopen hctx hmaps hwrites hstate with
      ⟨out, hrun, _, hfile⟩
    refine ⟨{ out with proc := entry.returnFrom out.proc }, ?_, ctx, hctx, hfile⟩
    simp [Entry.enter, hrun]

theorem enter_spec {entry : Entry} {c : HandlerCalls} {p : Proc} {file : Option (List UInt8)}
    {out : HandlerOut} (h : entry.enter c p file = .ok out) :
    (p.state ≠ POST_RESTART → out.proc.state ≠ POST_RESTART) ∧
      ∀ s, out.saved = some s → s.proc.state = POST_RESTART := by
  rcases Exec.bind_eq_ok_iff.1 h with ⟨hout, hrun, heq⟩
  obtain rfl : { hout with proc := entry.returnFrom hout.proc } = out := Exec.ok.inj heq
  have hreturn : hout.proc.state ≠ POST_RESTART →
      (entry.returnFrom hout.proc).state ≠ POST_RESTART := by
    intro hne
    cases entry with
    | signal => exact hne
    | api => simp [Entry.state_returnFrom_api]
  rcases checkpointHandler_cases hrun with
    ⟨_, rfl⟩ | ⟨_, _, rfl⟩ | ⟨ctx, _, _, htook⟩ | ⟨ctx, _, _, hstate, rfl⟩
  · exact ⟨hreturn, by simp⟩
  · exact ⟨hreturn, by simp⟩
  · refine ⟨fun _ => hreturn (by simp [htook.proc]), ?_⟩
    intro s hs
    rw [htook.saved] at hs
    rw [← Option.some.inj hs]
  · exact ⟨fun hne => absurd hstate hne, by simp⟩

/-- A process restarted with the saved state only resets its wrappers. -/
theorem afterGetcontext_restarted {c : HandlerCalls} {s : Saved} {f : OutFile} {out : HandlerOut}
    (hstate : s.proc.state = POST_RESTART) (h : afterGetcontext c s.st s.proc f = .ok out) :
    out.proc = resetWrappers s.proc := by
  have hrun : afterGetcontext c s.st s.proc f =
      .ok ⟨resetWrappers s.proc, some f.content, none⟩ := by
    simp [afterGetcontext, hstate]
  rw [hrun] at h
  exact (congrArg HandlerOut.proc (Exec.ok.inj h)).symm

/-! ## Runs -/

def CopiesRestart (w : World) : Prop :=
  ∀ s entry, w.last = some (s, entry) → s.proc.state = POST_RESTART

theorem copiesRestart_step {w w' : World} {e : Event} (hinv : CopiesRestart w)
    (h : Step w e w') : CopiesRestart w' := by
  intro s entry hlast
  cases h with
  | compute _ => exact hinv s entry hlast
  | restart _ _ _ => exact hinv s entry hlast
  | @request entry' _ out hrun =>
      cases hsaved : out.saved with
      | none => exact hinv s entry (by simpa [lastAfter, hsaved] using hlast)
      | some s' =>
          obtain ⟨rfl, _⟩ : s' = s ∧ entry' = entry := by
            simpa [lastAfter, hsaved] using hlast
          exact (enter_spec hrun).2 s' hsaved

theorem copiesRestart_run {p : Proc} {disk : Option (List UInt8)} {es : List Event} {w : World}
    (h : Run Step (launch p disk) es w) : CopiesRestart w :=
  @Run.invariant _ _ Step CopiesRestart copiesRestart_step _ _ _ h (by simp [CopiesRestart, launch])

/-- A step keeps the state away from `POST_RESTART`, unless it restarts an image that the signal
has taken. -/
theorem state_step {w w' : World} {e : Event} (hstate : w.proc.state ≠ POST_RESTART)
    (h : Step w e w')
    (hrestart : ∀ c, e = .restart c → ∃ s, w.last = some (s, .api)) :
    w'.proc.state ≠ POST_RESTART := by
  cases h with
  | compute hsame => exact fun hp => hstate (hsame.symm.trans hp)
  | request hrun => exact (enter_spec hrun).1 hstate
  | @restart c s entry out hlast _ hrun =>
      -- `doCheckpoint` resets the state on its way out
      rcases hrestart c rfl with ⟨s', hapi⟩
      obtain ⟨rfl, rfl⟩ : s = s' ∧ entry = .api := by
        simpa using hlast.symm.trans hapi
      simp [Entry.state_returnFrom_api]

/-- Every state of a run serves every request exactly when each restart of the run is from an image
that `doCheckpoint` has taken. -/
theorem served_iff (p : Proc) (disk : Option (List UInt8)) (es : List Event) :
    (∀ es' w, es' <+: es → Run Step (launch p disk) es' w → Served w) ↔
      ∀ es' c w w', es' ++ [.restart c] <+: es → Run Step (launch p disk) es' w →
        Step w (.restart c) w' → ∃ s, w.last = some (s, .api) := by
  constructor
  · intro hserved es' c w w' hprefix hrun hstep
    have hne := (served_iff_state w').1 (hserved _ w' hprefix (.snoc hrun hstep))
    cases hstep with
    | @restart _ s entry out hlast hdisk hafter =>
        have hproc := afterGetcontext_restarted (copiesRestart_run hrun s entry hlast) hafter
        cases entry with
        | api => exact ⟨s, hlast⟩
        | signal =>
            -- the state is the saved one, in which no request is served
            refine absurd ?_ hne
            simpa [Entry.returnFrom, hproc, resetWrappers] using
              copiesRestart_run hrun s .signal hlast
  · intro hrestarts es' w hprefix hrun
    rw [served_iff_state]
    -- by induction along the run, over the prefixes of `es`
    induction hrun with
    | nil => simp [launch]
    | @snoc w w' es' e hrun hstep ih =>
        have hbefore := ih ((List.prefix_append es' [e]).trans hprefix)
        refine state_step hbefore hstep ?_
        rintro c rfl
        exact hrestarts es' c w w' hprefix hrun hstep

/-! ## A signal, a restart, and a signal -/

def goodCalls : HandlerCalls := callsWriting [.moved stateSize]

/-- After a restart from an image that the signal has taken, the next request is not served. -/
theorem not_served_signalRestart :
    ¬ ∀ p disk es w, Run Step (launch p disk) es w → Served w := by
  intro hall
  rcases @checkpointHandler_succeeds goodCalls bareProc _ none rfl rfl rfl delivers_bareProc
    (by decide) with ⟨out, hrun, htook, hfile⟩
  -- the signal takes a checkpoint, and the process is restarted from it
  let s : Saved := ⟨goodCalls.savedState CkptRestartState.blank.ctx,
    { bareProc with state := POST_RESTART }⟩
  have hsignal : Step (launch bareProc none) (.request .signal goodCalls)
      ⟨out.proc, out.file, some (s, .signal)⟩ := by
    have hlast : lastAfter (launch bareProc none) .signal out = some (s, .signal) := by
      simp [lastAfter, htook.saved, s]
    rw [← hlast]
    refine .request ?_
    show (checkpointHandler goodCalls bareProc none >>= _) = _
    rw [hrun]
    rfl
  have hafter : afterGetcontext goodCalls s.st s.proc ⟨[], 0, goodCalls.writes⟩ =
      .ok ⟨resetWrappers s.proc, some [], none⟩ := rfl
  have hrestart : Step ⟨out.proc, out.file, some (s, .signal)⟩ (.restart goodCalls)
      { (⟨out.proc, out.file, some (s, .signal)⟩ : World) with
        proc := Entry.signal.returnFrom (resetWrappers s.proc) } :=
    .restart rfl hfile hafter
  have hserved := hall bareProc none _ _ (.snoc (.snoc (.nil _) hsignal) hrestart)
  exact (served_iff_state _).1 hserved rfl

end Lifecycle
end CkptRestart
