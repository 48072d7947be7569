import CkptRestart.MemRestore.StartRanks
import CkptRestart.SecondGeneration

/-!
# Generations — a rank that is restarted again and again

A rank that was restored alone runs on, takes its next checkpoint, and is restored from that.  What
the lower half tracks for it then are the records of the image, so the next image has the same
addresses as long as the kernel merges none of them.

No handler for the signal is installed in a restored process, so it is `doCheckpoint` that takes the
image.  `generations_goOn` compares any number of such generations with the rank that was never
interrupted.
-/

namespace CkptRestart

open Lib SharedMemory
open Lifecycle (Entry)

section Generations

variable {ρ ο : Type}

/-- The thread of a rank that was restored alone, when the rank has taken `n` steps. -/
def SavedRank.resumed (p : SavedRank) (calls : RankCalls) (cpu : Cpu ρ ο) (n : Nat) (r : Restorer) :
    Runner (RankThread ρ) ο × View Nat Nat UInt8 :=
  Runner.run permits (startRank calls cpu) (n + 2) (.start ο (.startRank (some p.st))) r.space.view

/-- How many steps a rank takes between a restart and a checkpoint, and what it puts out. -/
structure Stretch (ο : Type) where
  steps : Nat
  output : List ο

/-- The upper half of the rank then: its variables as the restart has left them, and its memory. -/
def SavedRank.again (p : SavedRank) (calls : RankCalls) (cpu : Cpu ρ ο) (n : Nat) (r : Restorer)
    (maps : MapsSnapshot) : Proc :=
  { restartedProc p.entry r maps with mem := ⟨maps, (p.resumed calls cpu n r).2.bytes⟩ }

/-- The image `p` is restored alone, the rank takes some steps, and calls `doCheckpoint`, which leaves
the image `q`.  The kernel does what the restore asks for, and shows each record in an area of its own. -/
inductive Generation (cpu : Cpu ρ ο) (p : SavedRank) (e : Stretch ο) (q : SavedRank) : Prop
  | mk {k : Kernel} {r r' : Restorer} {maps : MapsSnapshot} {calls : RankCalls} {regs : ρ}
      (hk : k.Honest) (htakes : k.TakesAll (savedAll [p]) r) (htable : r.table = .initial)
      (hfree : ∀ x ∈ window p.rank, r.space.protAt x = none) (hcount : p.records.length < maxTrack)
      (hrun : restoreCheckpoint k [p.image] r = .ok (0, [p.st], r'))
      (hmaps : k.procMaps r'.space = some maps) (hapart : OneEach p.records maps)
      (hcalls : calls.Succeed)
      (hrunner : (p.resumed calls cpu e.steps r').1 = ⟨.resumed regs, .running, e.output⟩)
      (hupper : q.upper = p.again calls cpu e.steps r' maps)
      -- what `getcontext` stores, `setcontext` brings back
      (hcontext : cpu.resume q.st.ctx q.st.fsAddr = regs)
      (hentry : q.entry = .api) (hrank : q.rank = p.rank)

/-- The checkpoint `q` is that of the rank `p` alone after `n` steps. -/
structure GoneOn (cpu : Cpu ρ ο) (p : SavedRank) (n : Nat) (output : List ο) (q : SavedRank) : Prop where
  saved : q.saved = p.saved
  runner : (p.alone cpu n).1 = ⟨cpu.resume q.st.ctx q.st.fsAddr, .running, output⟩
  memory : (p.alone cpu n).2.Agree p.saved q.upper.mem.view

theorem GoneOn.refl (cpu : Cpu ρ ο) (p : SavedRank) : GoneOn cpu p 0 [] p :=
  ⟨rfl, rfl, ⟨fun _ _ => rfl, fun _ _ => rfl⟩⟩

/-- A rank of which the next checkpoint writes nothing: the handler empties the file. -/
def SavedRank.EmptiesNext (p : SavedRank) (cpu : Cpu ρ ο) : Prop :=
  ∀ (calls : RankCalls) (n : Nat) (r : Restorer) (maps : MapsSnapshot) (c : HandlerCalls)
    (before : Option (List UInt8)) (out : HandlerOut), c.opens = true →
    Entry.api.enter c (p.again calls cpu n r maps) before = .ok out → out.file = some []

/-! ## Images of whole pages -/

namespace SavedRank

variable (p : SavedRank)

/-- The image with the window of the rank. -/
def confinedImage : ConfinedImage where
  toRankImage := p.rankImage
  windowStart := addrSpaceSize * (p.rank + 1)
  windowEnd := addrSpaceSize * (p.rank + 2)

theorem ownRecords_confinedImage : ownRecords [p.confinedImage] = p.records := by
  simp [ownRecords, allRecords, confinedImage, Checkpoint.rankImage, records]

/-- All that is in an image can be read. -/
theorem ownReadable_eq : ownReadable p.confinedImage = p.saved := by
  ext x
  constructor
  · rintro ⟨a, ha, -, hx⟩
    exact ⟨a, ha, hx⟩
  · rintro ⟨a, ha, hx⟩
    -- `skipRegion` leaves out the areas that cannot be read
    obtain ⟨b, -, t, -, hread, hrecord⟩ := p.mem_records ha
    exact ⟨a, ha, by rwa [Area.readable, hrecord.prot], hx⟩

variable {p}

theorem restorableAll (hwhole : WholePages p.tracked) : RestorableAll p.records where
  each := by
    intro a ha
    have hmappable := p.mappableAll.each a ha
    obtain ⟨b, hb, t, ht, -, hrecord⟩ := p.mem_records ha
    refine ⟨hmappable.fits, hmappable.valid, ?_, hmappable.endAddr⟩
    -- it is an area, or as long as a region
    rcases hrecord.bounds with ⟨rfl, -⟩ | ⟨-, -, hsize⟩
    · have haligned := p.upper.mem.maps.aligned a hb
      rw [p.upper.mem.maps.sized a hb]
      exact Nat.dvd_sub haligned.2 haligned.1
    · rw [hsize]
      exact (hwhole t ht).2.1
  disjoint := by
    rw [records, Proc.records, p.listed]
    exact selectRecords_disjoint p.tracked p.upper.mem.maps.disjoint

theorem wellFormed (hwhole : WholePages p.tracked) : WellFormedImages [p.confinedImage] where
  readable := List.forall_mem_singleton.2 p.readable
  records := List.forall_mem_singleton.2 (p.restorableAll hwhole)
  inWindow := by
    refine List.forall_mem_singleton.2 fun a ha => ?_
    have hlt := ((p.restorableAll hwhole).each a ha).addr_lt
    exact (Set.Ico_subset_Ico_iff hlt).1 (p.range_subset ha)
  windows := List.pairwise_singleton _ _

end SavedRank

/-- Success is that of `restoreMemoryForImages`. -/
theorem restoreMemoryForImages_of_restoreCheckpoint {k : Kernel} {ckptImgs : List Image}
    {ctxs : List CkptRestartState} {r r' : Restorer}
    (h : restoreCheckpoint k ckptImgs r = .ok (0, ctxs, r')) :
    restoreMemoryForImages k ckptImgs r = .ok (0, ctxs, r') := by
  unfold restoreCheckpoint at h
  dsimp only at h
  split at h
  · cases h
  obtain ⟨⟨rc, ctxs', r''⟩, hrun, hrest⟩ := Exec.bind_eq_ok_iff.1 h
  dsimp only at hrest
  split at hrest
  · next hneg =>
      cases hrest
      exact absurd hneg (lt_irrefl 0)
  · cases hrest
    exact hrun

section One

variable {cpu : Cpu ρ ο} {p q : SavedRank}

/-- After a restore alone, the process lists the records of the image, and holds what is in it. -/
theorem SavedRank.restoredAlone {k : Kernel} (hk : k.Honest) (hwhole : WholePages p.tracked)
    {r r' : Restorer} (htakes : k.TakesAll (savedAll [p]) r) (htable : r.table = .initial)
    (hfree : ∀ x ∈ window p.rank, r.space.protAt x = none) (hcount : p.records.length < maxTrack)
    (hrun : restoreCheckpoint k [p.image] r = .ok (0, [p.st], r')) :
    (p.upper.mem.view).Agree p.saved r'.space.view ∧
      ∀ maps, k.procMaps r'.space = some maps → Relisted p.records r' maps := by
  constructor
  · obtain ⟨hok, hagree⟩ := restoreCheckpoint_ok hk (List.cons_ne_nil p [])
      (List.pairwise_singleton _ _) htakes (by simpa using hfree)
    have hsame : restoredAll (savedAll [p]) r = r' := by simpa using hok.symm.trans hrun
    exact hsame ▸ hagree p (List.mem_singleton.2 rfl)
  · have hplaces : ∀ a ∈ ownRecords [p.confinedImage], ∀ x ∈ a.range, r.space.protAt x = none := by
      rw [p.ownRecords_confinedImage]
      exact fun a ha x hx => hfree x (p.range_subset ha hx)
    obtain ⟨r'', hrestore, hrelisted⟩ := restore_relisted hk (SavedRank.wellFormed hwhole) htakes
      htable hplaces (by rw [p.ownRecords_confinedImage]; exact hcount)
    have himages : ([p.confinedImage].map fun img => img.image) = [p.image] := by
      rw [p.image_eq]
      rfl
    rw [himages] at hrestore
    have hsame : r'' = r' := by
      have heq := hrestore.symm.trans (restoreMemoryForImages_of_restoreCheckpoint hrun)
      simp only [Exec.ok.injEq, Prod.mk.injEq] at heq
      exact heq.2.2
    rw [p.ownRecords_confinedImage, hsame] at hrelisted
    exact hrelisted

theorem SavedRank.records_again (p : SavedRank) (calls : RankCalls) (cpu : Cpu ρ ο) (n : Nat)
    (r : Restorer) (maps : MapsSnapshot) :
    (p.again calls cpu n r maps).records = nextRecords r maps := by
  cases hentry : p.entry <;> simp only [again, hentry] <;> rfl

/-- A rank that the signal has saved resumes in the state of a restart. -/
theorem SavedRank.state_again_signal (p : SavedRank) (hentry : p.entry = .signal) (calls : RankCalls)
    (cpu : Cpu ρ ο) (n : Nat) (r : Restorer) (maps : MapsSnapshot) :
    (p.again calls cpu n r maps).state = .POST_RESTART := by
  rw [again, hentry]
  rfl

/-- Of a rank that the signal has saved, nothing is saved again. -/
theorem SavedRank.emptiesNext (hentry : p.entry = .signal) : p.EmptiesNext cpu := by
  intro calls n r maps c before out hopens hrun
  obtain ⟨hout, hhandler, hret⟩ := Exec.bind_eq_ok_iff.1 hrun
  have hstate := p.state_again_signal hentry calls cpu n r maps
  rw [← Exec.ok.inj hret]
  rcases checkpointHandler_cases hhandler with
    ⟨hclosed, -⟩ | ⟨_, _, rfl⟩ | ⟨_, _, _, htook⟩ | ⟨_, _, _, _, rfl⟩
  · rw [hopens] at hclosed
    cases hclosed
  · rfl
  · exact absurd hstate htook.state
  · rfl

/-- The next checkpoint has the addresses of the last one. -/
theorem SavedRank.saved_regenerated {r : Restorer} {maps : MapsSnapshot}
    (h : Relisted p.records r maps) (hapart : OneEach p.records maps) {calls : RankCalls} {n : Nat}
    (hupper : q.upper = p.again calls cpu n r maps) : q.saved = p.saved := by
  rw [← p.ownRecords_confinedImage] at h hapart
  have hcovers := h.covered_eq (.inl rfl) hapart _ (List.mem_singleton.2 rfl)
  rw [saved, records, hupper, records_again, hcovers, p.ownReadable_eq]

/-- What is tracked then are the regions of its records. -/
theorem SavedRank.tracked_again {r : Restorer} {maps : MapsSnapshot} (h : Relisted p.records r maps)
    {calls : RankCalls} {n : Nat} (hupper : q.upper = p.again calls cpu n r maps) :
    q.tracked = p.records.map regionOf := by
  have hlisted := q.listed
  have hfnc : q.upper.fnc = some (mmappedList r.table) := by
    rw [hupper]
    cases hentry : p.entry <;> simp only [again, hentry] <;> rfl
  rw [hfnc, h.tracked] at hlisted
  exact (Option.some.inj hlisted).symm

theorem RestorableAll.valid_regions {records : List Area} (h : RestorableAll records) :
    ∀ t ∈ records.map regionOf, ValidRange t.addr t.len := by
  intro t ht
  obtain ⟨a, ha, rfl⟩ := List.mem_map.1 ht
  exact (h.each a ha).valid

theorem RestorableAll.wholePages {records : List Area} (h : RestorableAll records) :
    WholePages (records.map regionOf) := by
  intro t ht
  obtain ⟨a, ha, rfl⟩ := List.mem_map.1 ht
  have hrestorable := h.each a ha
  exact ⟨hrestorable.valid.aligned, hrestorable.whole, hrestorable.valid.pos⟩

/-- What a thread is, its rank is. -/
theorem Runner.eq_of_map {t : Runner ρ ο} {regs : ρ} {ending : Ending} {output : List ο}
    (h : t.map RankThread.resumed = ⟨.resumed regs, ending, output⟩) : t = ⟨regs, ending, output⟩ := by
  obtain ⟨state, ending', output'⟩ := t
  simpa [Runner.map] using h

/-- One generation. -/
theorem Generation.goneOn {e : Stretch ο} (h : Generation cpu p e q) (hwhole : WholePages p.tracked)
    (hkeeps : p.KeepsTo cpu e.steps) : GoneOn cpu p e.steps e.output q := by
  obtain @⟨k, r, r', maps, calls, regs, hk, htakes, htable, hfree, hcount, hrun, hmaps, hapart, hcalls,
    hrunner, hupper, hcontext, -, -⟩ := h
  obtain ⟨hagree, hrelisted⟩ := SavedRank.restoredAlone hk hwhole htakes htable hfree hcount hrun
  have hlisted := hrelisted maps hmaps
  have hresumed : p.resumed calls cpu e.steps r' = _ := startRank_run hcalls p.st e.steps r'.space.view
  obtain ⟨hsame, hmemory⟩ := Runner.run_agree permits cpu.code hagree hkeeps
  -- the maps file shows the memory as it is
  have hview : q.upper.mem.view = (p.resumed calls cpu e.steps r').2 := by
    have hprot : (p.resumed calls cpu e.steps r').2.prot = r'.space.view.prot :=
      Runner.run_prot permits _ _ _ _
    have hlist : (⟨maps, r'.space.bytes⟩ : Mem).view.prot = r'.space.view.prot :=
      congrArg View.prot hlisted.lists.view_eq
    rw [hupper]
    exact congrArg (View.mk · _) (hlist.trans hprot.symm)
  refine ⟨SavedRank.saved_regenerated hlisted hapart hupper, ?_, ?_⟩
  · rw [hresumed, ← hsame] at hrunner
    rw [hcontext]
    exact Runner.eq_of_map hrunner
  · rw [hview, hresumed]
    exact hmemory

theorem Generation.wholePages {e : Stretch ο} (h : Generation cpu p e q)
    (hwhole : WholePages p.tracked) : WholePages q.tracked := by
  obtain ⟨hk, htakes, htable, hfree, hcount, hrun, hmaps, -, -, -, hupper, -, -, -⟩ := h
  obtain ⟨-, hrelisted⟩ := SavedRank.restoredAlone hk hwhole htakes htable hfree hcount hrun
  rw [SavedRank.tracked_again (hrelisted _ hmaps) hupper]
  exact (SavedRank.restorableAll hwhole).wholePages

/-- The rank alone is then what it is when it starts from the checkpoint, with what it has put out
before. -/
theorem GoneOn.runner_after {n : Nat} {output : List ο} (h : GoneOn cpu p n output q) :
    (p.alone cpu n).1 = (Runner.start ο (cpu.resume q.st.ctx q.st.fsAddr)).after output := by
  rw [h.runner, Runner.after, Runner.start, List.append_nil]

/-- From there the rank takes the steps that it takes without the checkpoint. -/
theorem GoneOn.keepsTo {n m : Nat} {output : List ο} (h : GoneOn cpu p n output q)
    (hkeeps : p.KeepsTo cpu (n + m)) : q.KeepsTo cpu m := by
  have hafter := Runner.Within.after permits cpu.code hkeeps
  have hrunner := h.runner_after
  rw [SavedRank.alone] at hrunner
  rw [hrunner] at hafter
  rw [SavedRank.KeepsTo, h.saved]
  exact (Runner.Within.of_after permits cpu.code hafter).agree permits cpu.code h.memory

theorem GoneOn.trans {t : SavedRank} {n m : Nat} {output output' : List ο}
    (h : GoneOn cpu p n output q) (hnext : GoneOn cpu q m output' t)
    (hkeeps : q.KeepsTo cpu m) : GoneOn cpu p (n + m) (output ++ output') t := by
  have hrunner := h.runner_after
  -- the rank that was never checkpointed goes on from where `q` is, with what it has put out
  have hrun : p.alone cpu (n + m) = ((Runner.run permits cpu.code m
      (.start ο (cpu.resume q.st.ctx q.st.fsAddr)) (p.alone cpu n).2).1.after output,
      (Runner.run permits cpu.code m (.start ο (cpu.resume q.st.ctx q.st.fsAddr))
        (p.alone cpu n).2).2) := by
    rw [← Runner.run_after, ← hrunner]
    exact Runner.run_add permits cpu.code n m _ _
  have hagree : (q.upper.mem.view).Agree q.saved (p.alone cpu n).2 := h.saved ▸ h.memory.symm
  obtain ⟨hsame, hmemory⟩ := Runner.run_agree permits cpu.code hagree hkeeps
  refine ⟨hnext.saved.trans h.saved, ?_, ?_⟩
  · have halone := hnext.runner
    rw [SavedRank.alone, hsame] at halone
    rw [hrun, halone]
    rfl
  · have hnextMemory := hnext.memory
    rw [h.saved] at hmemory hnextMemory
    rw [hrun]
    exact hmemory.symm.trans hnextMemory

/-- Only `doCheckpoint` takes images that have a next generation. -/
theorem Generation.entry {e : Stretch ο} (h : Generation cpu p e q) : p.entry = .api := by
  obtain @⟨k, r, r', maps, calls, regs, -, -, -, -, -, -, -, -, -, -, hupper, -, -, -⟩ := h
  cases hentry : p.entry with
  | api => rfl
  | signal =>
      have hstate := p.state_again_signal hentry calls cpu e.steps r' maps
      rw [← hupper] at hstate
      exact absurd hstate q.state

theorem Run.nil_of_signal {es : List (Stretch ο)} (hrun : Run (Generation cpu) p es q)
    (hentry : p.entry = .signal) : es = [] ∧ q = p := by
  induction hrun with
  | nil => exact ⟨rfl, rfl⟩
  | snoc _ he ih =>
      obtain ⟨-, rfl⟩ := ih
      cases hentry.symm.trans he.entry

/-- After any number of restarts and checkpoints, the rank is where it would be without them, has put
out what it would have put out, and its image has the addresses of the first one.  An image that the
signal has taken is the last. -/
theorem generations_goOn {es : List (Stretch ο)} (hrun : Run (Generation cpu) p es q)
    (hwhole : WholePages p.tracked) (hkeeps : p.KeepsTo cpu (es.map Stretch.steps).sum) :
    GoneOn cpu p (es.map Stretch.steps).sum (es.map Stretch.output).flatten q ∧
      (p.entry = .signal → es = [] ∧ p.EmptiesNext cpu) := by
  refine ⟨?_, fun hentry => ⟨(Run.nil_of_signal hrun hentry).1, p.emptiesNext hentry⟩⟩
  induction hrun with
  | nil => exact .refl cpu p
  | snoc hbefore he ih =>
      rw [List.map_append, List.sum_append, List.map_singleton, List.sum_singleton] at hkeeps ⊢
      rw [List.map_append, List.flatten_append, List.map_singleton, List.flatten_singleton]
      -- up to the last generation the rank has gone on, and from there it takes its next steps
      have hgone := ih (hkeeps.mono permits cpu.code (Nat.le_add_right _ _))
      have hnext := hgone.keepsTo hkeeps
      have hpages := @Run.invariant _ _ (Generation cpu) (fun q => WholePages q.tracked)
        (fun hpages he => he.wholePages hpages) _ _ _ hbefore hwhole
      exact hgone.trans (he.goneOn hpages hnext) hnext

/-- A kernel that merges nothing shows each record in an area of its own. -/
theorem Relisted.oneEach {records : List Area} {r : Restorer}
    (h : Relisted records r (listEach r.space)) : OneEach records (listEach r.space) := by
  intro b hb _ a ha a' ha' hholds hholds'
  obtain ⟨g, hg, rfl⟩ := List.mem_map.1 hb
  -- each area is one mapping, and a mapping is that of one record
  have hseg : ∀ c ∈ records, holds (listSeg g) c = true → g = restoredSeg c := by
    intro c hc hcg
    obtain ⟨hlo, hhi⟩ := regionContains_iff.1 hcg
    have hne := (h.restorable.each c hc).addr_lt
    exact RangeMap.eq_of_has hg (h.segs c hc) ⟨hlo, lt_of_lt_of_le hne hhi⟩ ⟨le_rfl, hne⟩
  have hlo : a.addr = a'.addr := congrArg Seg.lo ((hseg a ha hholds).symm.trans (hseg a' ha' hholds'))
  refine Area.eq_of_mem_range h.restorable.disjoint ha ha'
    (Area.mem_range.2 ⟨le_rfl, (h.restorable.each a ha).addr_lt⟩) (Area.mem_range.2 ⟨hlo.ge, ?_⟩)
  rw [hlo]
  exact (h.restorable.each a' ha').addr_lt

/-- A restored rank that `doCheckpoint` has saved can call it again. -/
theorem SavedRank.exists_next (hentry : p.entry = .api) (hwhole : WholePages p.tracked) {r : Restorer}
    {maps : MapsSnapshot} (h : Relisted p.records r maps) (calls : RankCalls) (n : Nat)
    {st : CkptRestartState} (hst : st.Fits) :
    ∃ q : SavedRank, q.upper = p.again calls cpu n r maps ∧ q.entry = .api ∧ q.rank = p.rank ∧
      q.st = st ∧ q.tracked = p.records.map regionOf := by
  have hrestorable := p.restorableAll hwhole
  have hupper : (p.again calls cpu n r maps).state = .RUNNING ∧
      (p.again calls cpu n r maps).fnc = some (p.records.map regionOf) := by
    rw [← h.tracked]
    simp only [again, hentry]
    exact ⟨rfl, rfl⟩
  have hstate : (p.again calls cpu n r maps).state ≠ .POST_RESTART := by
    rw [hupper.1]
    decide
  obtain ⟨c, hcupper, hcentry, hcst⟩ := exists_checkpoint hstate hst
  refine ⟨{
    toCheckpoint := c
    rank := p.rank
    tracked := p.records.map regionOf
    listed := by rw [hcupper, hupper.2]
    areas := by rw [hcupper]; exact h.lists.nonempty
    valid := hrestorable.valid_regions
    confined := ?_ }, hcupper, hcentry, rfl, hcst, rfl⟩
  intro t ht x hx
  obtain ⟨a, ha, rfl⟩ := List.mem_map.1 ht
  have hend := (hrestorable.each a ha).endAddr
  rw [regionOf, MmapInfo.mem_range, ← hend] at hx
  exact p.range_subset ha (Area.mem_range.2 hx)

/-- In a process of its own, with a kernel that merges nothing, each record is one area and nothing else
is mapped. -/
theorem SavedRank.length_nextRecords_le (p : SavedRank) :
    (nextRecords (restoredAll (savedAll [p]) emptyRestorer)
      (listEach (restoredAll (savedAll [p]) emptyRestorer).space)).length ≤ p.records.length := by
  have hplaced := placed_savedRanks (List.pairwise_singleton _ p) (s := emptyRestorer.space)
    (fun _ _ _ _ => rfl)
  have hareas : (listEach (restoredAll (savedAll [p]) emptyRestorer).space).areas.length =
      p.records.length := by
    have hsegs := congrArg List.length (segs_restoredAll hplaced)
    rw [List.length_append, List.length_reverse, List.length_map] at hsegs
    rw [listEach, List.length_map, hsegs]
    simp [savedAll, allSaved, RankImage.saved, Mem.saved, Checkpoint.rankImage, records,
      emptyRestorer, emptySpace]
  rw [← hareas]
  exact List.length_filterMap_le _ _

/-- A rank that `doCheckpoint` has saved and that can be stopped after some steps has a next
generation. -/
theorem exists_generation (hentry : p.entry = .api) (hwhole : WholePages p.tracked) {e : Stretch ο}
    {st : CkptRestartState} (hst : st.Fits) (hcount : p.records.length < maxTrack)
    (hkeeps : p.KeepsTo cpu e.steps)
    (halone : (p.alone cpu e.steps).1 = ⟨cpu.resume st.ctx st.fsAddr, .running, e.output⟩) :
    ∃ q, Generation cpu p e q ∧ q.entry = .api ∧ WholePages q.tracked ∧
      q.records.length < maxTrack := by
  have hcalls : RankCalls.Succeed ⟨0, 0, 0, 0⟩ := ⟨rfl, le_rfl, le_rfl⟩
  have htakes := Kernel.plain_takesAll (savedAll [p]) emptyRestorer
  have hfree : ∀ x ∈ window p.rank, emptyRestorer.space.protAt x = none := fun _ _ => rfl
  obtain ⟨hrun, hagree⟩ := restoreCheckpoint_ok Kernel.plain_honest (List.cons_ne_nil p [])
    (List.pairwise_singleton _ _) htakes (by simpa using hfree)
  let r' := restoredAll (savedAll [p]) emptyRestorer
  have hlisted := (SavedRank.restoredAlone Kernel.plain_honest hwhole htakes rfl hfree hcount hrun).2
    (listEach r'.space) rfl
  obtain ⟨q, hupper, hqentry, hrank, hqst, htracked⟩ :=
    SavedRank.exists_next hentry hwhole hlisted ⟨0, 0, 0, 0⟩ e.steps hst
  have hcontext : cpu.resume q.st.ctx q.st.fsAddr = cpu.resume st.ctx st.fsAddr := by rw [hqst]
  refine ⟨q, .mk Kernel.plain_honest htakes rfl hfree hcount hrun rfl hlisted.oneEach hcalls ?_ hupper
    hcontext hqentry hrank, hqentry, ?_, ?_⟩
  · -- the thread is where the rank would be alone
    have hsame := (Runner.run_agree permits cpu.code (hagree p (List.mem_singleton.2 rfl)) hkeeps).1
    have hresumed : p.resumed ⟨0, 0, 0, 0⟩ cpu e.steps r' = _ :=
      startRank_run hcalls p.st e.steps r'.space.view
    rw [hresumed, ← hsame]
    exact congrArg (Runner.map RankThread.resumed) halone
  · rw [htracked]
    exact (SavedRank.restorableAll hwhole).wholePages
  · rw [SavedRank.records, hupper, SavedRank.records_again]
    exact lt_of_le_of_lt p.length_nextRecords_le hcount

end One

end Generations

/-- A rank counts in its page. -/
def pageCpu : Cpu Counter UInt8 := countingCpu (firstPage 0).addr

/-- It is restarted twice. -/
theorem generations_goOn_onePage : ∃ (p q : SavedRank) (es : List (Stretch UInt8)),
    es = [⟨3, [1]⟩, ⟨3, [2]⟩] ∧ Run (Generation pageCpu) p es q ∧ GoneOn pageCpu p 6 [1, 2] q ∧
      (p.entry = .signal → es = [] ∧ p.EmptiesNext pageCpu) := by
  obtain ⟨p, hrank, hupper, hentry, htracked⟩ := exists_savedRank 0 (by decide)
  obtain ⟨hsaved, hprot, hbyte⟩ := pageProc_byte hupper
  have hwhole : WholePages p.tracked := by
    rw [htracked]
    decide
  have hcount : p.records.length < maxTrack := by
    rw [SavedRank.records, hupper, records_pageProc]
    decide
  have hkeeps : ∀ n, p.KeepsTo pageCpu n := keepsTo_countingCpu hsaved
  have hfirst : p.alone pageCpu 3 = _ := alone_countingCpu hprot
  rw [hbyte] at hfirst
  obtain ⟨q, hq, hqentry, hqwhole, hqcount⟩ := @exists_generation _ _ pageCpu p hentry hwhole ⟨3, [1]⟩
    .blank blank_fits hcount (hkeeps 3) (congrArg Prod.fst hfirst)
  -- after the restart the byte is there, and counted on
  have hgone := hq.goneOn hwhole (hkeeps 3)
  have hqsaved : (firstPage 0).addr ∈ q.saved := by rwa [hgone.saved]
  have hmemory := hgone.memory
  rw [hfirst] at hmemory
  have hqbyte : q.upper.mem.bytes (firstPage 0).addr = 2 := by
    have hsame : _ = q.upper.mem.bytes (firstPage 0).addr := hmemory.bytes _ hsaved
    rw [← hsame]
    rfl
  have hsecond : q.alone pageCpu 3 = _ :=
    alone_countingCpu ((hmemory.prot _ hsaved).symm.trans hprot)
  rw [hqbyte] at hsecond
  obtain ⟨t, ht, -⟩ := @exists_generation _ _ pageCpu q hqentry hqwhole ⟨3, [2]⟩ .blank blank_fits
    hqcount (keepsTo_countingCpu hqsaved 3) (congrArg Prod.fst hsecond)
  have hrun : Run (Generation pageCpu) p [⟨3, [1]⟩, ⟨3, [2]⟩] t := .snoc (.snoc (.nil p) hq) ht
  exact ⟨p, t, _, rfl, hrun, generations_goOn hrun hwhole (hkeeps 6)⟩

end CkptRestart
