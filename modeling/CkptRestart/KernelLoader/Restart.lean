import CkptRestart.KernelLoader
import CkptRestart.MemRestore.StartRanks

/-!
# Restart — a rank from one loader to another

`main` of `kernel-loader.c` either makes a process a rank or brings the ranks of several images into
one process.  In between a rank runs, and `checkpointHandler` of `mem-ckpt.c` writes its image.

`main_goesOn` puts these together: ranks that were started by one loader go on in another.
-/

namespace CkptRestart

open Lib SharedMemory

/-! ## The code -/

def restoreOption : List UInt8 := cstr ['-', '-', 'r', 'e', 's', 't', 'o', 'r', 'e']

/-- What the loader finds around it, and what opening a path gives. -/
structure MainEnv where
  rtld : RtldEnv
  images : List UInt8 → Image

/-- `main` returns, has called `runRtld`, or waits for the threads of `restoreCheckpoint`. -/
inductive MainEnd
  | returned (rc : Int)
  | rtld (last : RtldEnd) (p : RtldProc)
  | waits (ctxs : List CkptRestartState) (r : Restorer) (addrBin : Option (List UInt8))

/-- `main`; behind the last argument there is a null pointer. -/
def main (env : MainEnv) (argv : List (List UInt8)) (space : AddrSpace)
    (addrBin : Option (List UInt8)) : Exec MainEnd :=
  match argv with
  | _ :: option :: ckptImgs =>
      if strstr option restoreOption then
        if ckptImgs = [] then pure (.returned (-1))
        else
          let (rc, _, addrBin) := setupLowerHalfInfo env.rtld.setup env.rtld.loader.lhInfo addrBin
          if rc < 0 then .exited
          else do
            let (rc, ctxs, r) ← restoreCheckpoint env.rtld.confine.kernel
              (ckptImgs.map env.images) ⟨space, .initial⟩
            if rc < 0 then pure (.returned rc) else pure (.waits ctxs r addrBin)
      else do
        let (last, p) ← runRtld env.rtld space addrBin
        pure (.rtld last p)
  | _ => pure (.returned (-1))

theorem main_rtld {env : MainEnv} {argv : List (List UInt8)} {space : AddrSpace}
    {addrBin : Option (List UInt8)} {last : RtldEnd} {p : RtldProc}
    (h : main env argv space addrBin = .ok (.rtld last p)) :
    runRtld env.rtld space addrBin = .ok (last, p) := by
  unfold main at h
  split at h
  · split at h
    · split at h
      · cases h
      · dsimp only at h
        split at h
        · cases h
        · obtain ⟨⟨rc, ctxs, r⟩, _, hrest⟩ := Exec.bind_eq_ok_iff.1 h
          dsimp only at hrest
          split at hrest <;> cases hrest
    · obtain ⟨⟨last', p'⟩, hrun, hrest⟩ := Exec.bind_eq_ok_iff.1 h
      cases hrest
      exact hrun
  · cases h

/-! ## What a rank leaves -/

/-- A process that `main` has made a rank. -/
structure Launch where
  rank : Nat
  env : MainEnv
  argv : List (List UInt8)
  start : AddrSpace
  vvar : Seg Mapping
  vdso : Seg Mapping
  stack : Seg Mapping
  starts : env.rtld.Starts rank start vvar vdso stack
  addrBin : Option (List UInt8)
  newStack : Nat
  ldso : DynObjInfo
  proc : RtldProc
  launched : main env argv start addrBin = .ok (.rtld (.jumped newStack ldso) proc)

def Launch.site (l : Launch) : Site := l.starts.layout.site

/-- The rank runs inside its window, and is checkpointed.  The handler finds the memory as it is, and
what the lower half tracks then. -/
structure RankLife extends Launch, Checkpoint where
  events : List RankEvent
  last : RankProc
  run : Run (fun p e q => p.StepAbove proc.rank.heap.curbrk e q ∧
    Inside starts.layout.site p e) proc.rank events last
  maps : MapsSnapshot
  lists : Lists last.space maps
  mem : upper.mem = ⟨maps, last.space.bytes⟩
  fnc : upper.fnc = some (mmappedList last.heap.table)

namespace RankLife

variable (l : RankLife)

def tracked : List MmapInfo := mmappedList l.last.heap.table

/-- What the checkpoint finds in the table can be mapped and is in the window. -/
theorem tracked_spec :
    ∀ t ∈ l.tracked, ValidRange t.addr t.len ∧ t.range ⊆ window l.rank := by
  obtain ⟨hrank, -, -, hvalid⟩ := l.starts.jumped (main_rtld l.launched)
  have hlast := hrank.of_run l.run
  exact fun t ht =>
    ⟨hrank.valid_of_run hvalid l.run t (hlast.records.mem ht), hlast.listed ht⟩

/-- The rank with its image. -/
def saved : SavedRank where
  toCheckpoint := l.toCheckpoint
  rank := l.rank
  tracked := l.tracked
  listed := l.fnc
  areas := by
    rw [l.mem]
    exact l.lists.nonempty
  valid := fun t ht => (l.tracked_spec t ht).1
  confined := fun t ht => (l.tracked_spec t ht).2

/-- It is compared with the rank alone in the memory that it had at its checkpoint. -/
theorem view_saved : l.saved.upper.mem.view = l.last.space.view := by
  have hmem : l.saved.upper.mem = ⟨l.maps, l.last.space.bytes⟩ := l.mem
  rw [hmem]
  exact l.lists.view_eq

end RankLife

/-! ## From one loader to another -/

section GoesOn

variable {ρ ο : Type}

/-- Ranks that were started by `main`, ran in their windows, and were checkpointed, are started again
by `main` in one process, and go on there as they would have done from their checkpoints, whatever
the order of their steps; what `addr.bin` says then is about the new lower half. -/
theorem main_goesOn {env : MainEnv} (hk : env.rtld.confine.kernel.Honest) {lives : List RankLife}
    (hne : lives ≠ []) (hdistinct : lives.Pairwise fun l m => l.rank ≠ m.rank)
    {prog option : List UInt8} (hoption : strstr option restoreOption = true)
    {ckptImgs : List (List UInt8)} (himages : ckptImgs.map env.images = lives.map fun l => l.image)
    {space : AddrSpace}
    (htakes : env.rtld.confine.kernel.TakesAll (savedAll (lives.map RankLife.saved)) ⟨space, .initial⟩)
    (hfree : ∀ l ∈ lives, ∀ x ∈ window l.rank, space.protAt x = none)
    {addrBin : Option (List UInt8)}
    (hsetup : ¬ (setupLowerHalfInfo env.rtld.setup env.rtld.loader.lhInfo addrBin).1 < 0)
    (cpu : Nat → Cpu ρ ο) {calls : Nat → RankCalls} (hcalls : ∀ i, (calls i).Succeed) :
    ∃ ctxs r, main env (prog :: option :: ckptImgs) space addrBin =
        .ok (.waits ctxs r (some (writeLhInfoToFile
          { env.rtld.loader.lhInfo with lhFsAddr := env.rtld.setup.fs } addrBin))) ∧
      ∀ order : List Nat,
        (∀ i (l : RankLife), lives[i]? = some l →
          l.saved.KeepsTo (cpu i) (order.count i - 2)) →
        ∀ i (l : RankLife), lives[i]? = some l →
          l.saved.upper.mem.view = l.last.space.view ∧
            GoesOn l.saved (cpu i) ((startRanks ρ ο calls ctxs r).run permits
              (fun i => startRank (calls i) (cpu i)) order) i (order.count i) := by
  have hranks : lives.map RankLife.saved ≠ [] := by simpa using hne
  have hdistinct' : (lives.map RankLife.saved).Pairwise fun p q => p.rank ≠ q.rank := by
    rw [List.pairwise_map]
    exact hdistinct
  obtain ⟨hrun, hagree⟩ := restoreCheckpoint_ok hk hranks hdistinct' htakes
    (by simpa [RankLife.saved] using hfree)
  have hsaved : ((lives.map RankLife.saved).map fun p => p.image) = ckptImgs.map env.images := by
    rw [himages, List.map_map]
    rfl
  have himgs : ckptImgs ≠ [] := by
    rintro rfl
    exact hne (List.map_eq_nil_iff.1 himages.symm)
  rw [hsaved] at hrun
  -- `main` writes the new `addr.bin` before it restores
  have hmain : main env (prog :: option :: ckptImgs) space addrBin =
      .ok (.waits ((lives.map RankLife.saved).map fun p => p.st)
        (restoredAll (savedAll (lives.map RankLife.saved)) ⟨space, .initial⟩)
        (setupLowerHalfInfo env.rtld.setup env.rtld.loader.lhInfo addrBin).2.2) := by
    simp only [main, hoption, if_true, if_neg himgs, if_neg hsetup, hrun]
    rfl
  rw [setupLowerHalfInfo_ok hsetup] at hmain
  refine ⟨_, _, hmain, fun order hkeeps i l hi => ⟨l.view_saved, ?_⟩⟩
  -- what one process does with the saved ranks is known; each of them is the rank of a life
  have hi' : (lives.map RankLife.saved)[i]? = some l.saved := by simp [hi]
  refine goesOn_of_agree hdistinct' hagree cpu hcalls (fun j p hp => ?_) i l.saved hi'
  rw [List.getElem?_map] at hp
  obtain ⟨m, hm, rfl⟩ := Option.map_eq_some_iff.1 hp
  exact hkeeps j m hm

end GoesOn

/-! ## Two ranks -/

/-- A page that the kernel gives to a rank. -/
def givenPage (rank : Nat) : Nat := addrSpaceSize * (rank + 1) + 0x60000000

def pageWorld (rank : Nat) : MmapWorld := ⟨givenPage rank, .EINVAL, none⟩

/-- The rank has moved its break by the size of its heap. -/
def grown (p : RankProc) : RankProc := (p.sbrk .plain 0 0x64000).2

section Page

variable {rank : Nat} (hvalid : ValidRange (pageWorld rank).ret pageCall.length) (p : RankProc)

/-- Then it has mapped the page. -/
def paged : RankProc := (grown p).mmap pageCall (pageWorld rank) [] hvalid

/-- At last it has written a byte. -/
def written : RankProc :=
  { paged hvalid p with
    space := (paged hvalid p).space.store (givenPage rank) [UInt8.ofNat (rank + 5)] }

/-- The heap can grow, the page is free then, and a checkpoint has it. -/
def CanRun : Prop :=
  (p.heap.curbrk ≤ (grown p).heap.curbrk ∧
    p.heap.curbrk + (0x64000 : Int) ≤ (addrSpaceSize * (rank + 2) : Nat)) ∧
  (grown p).space.maps.Free (givenPage rank) (givenPage rank + pagesUp pageSize) ∧
  ∃ a ∈ selectRecords (some (mmappedList (written hvalid p).heap.table))
      (listEach (written hvalid p).space).areas,
    a.addr ≤ givenPage rank ∧ givenPage rank < a.endAddr ∧ a.prot = protRead ||| protWrite

instance : Decidable (CanRun hvalid p) := inferInstanceAs (Decidable (_ ∧ _ ∧ _))

def writtenEvents (rank : Nat) (p : RankProc) : List RankEvent :=
  [.sbrk .plain 0x64000 (p.sbrk .plain 0 0x64000).1, .mmap pageCall (pageWorld rank) [],
    .store (givenPage rank) [UInt8.ofNat (rank + 5)]]

theorem RankProc.curbrk_mmap {p : RankProc} {call : MmapCall} {world : MmapWorld} {data : List UInt8}
    (hvalid : ValidRange world.ret call.length) :
    (p.mmap call world data hvalid).heap.curbrk = p.heap.curbrk := rfl

variable {p hvalid}

theorem CanRun.run (hcan : CanRun hvalid p) {site : Site} (hrank : site.rank = rank)
    (hbrk : site.brk ≤ givenPage rank) (hstack : givenPage rank < site.stack) :
    Run (fun s e t => s.StepAbove p.heap.curbrk e t ∧ Inside site s e) p (writtenEvents rank p)
      (written hvalid p) := by
  obtain ⟨⟨hfloor, hend⟩, hfree, -⟩ := hcan
  have hsbrk : RankProc.Step p _ (grown p) := @RankProc.Step.sbrk p .plain 0x64000 0 (by decide)
  have hmmap : RankProc.Step (grown p) (.mmap pageCall (pageWorld rank) []) (paged hvalid p) :=
    .mmap (by decide) (by decide) hvalid hfree
  have hstore : RankProc.Step (paged hvalid p)
      (.store (givenPage rank) [UInt8.ofNat (rank + 5)]) (written hvalid p) := .store _ _
  have hpaged : p.heap.curbrk ≤ (paged hvalid p).heap.curbrk := by
    rw [paged, RankProc.curbrk_mmap]
    exact hfloor
  have hinside : Inside site p (.sbrk .plain 0x64000 (p.sbrk .plain 0 0x64000).1) := by
    rw [← hrank] at hend
    exact .inr (.inl hend)
  have hplace : Inside site (grown p) (.mmap pageCall (pageWorld rank) []) := .inr (.inr ⟨hbrk, hstack⟩)
  exact .snoc (.snoc (.snoc (.nil p) ⟨⟨hsbrk, hfloor⟩, hinside⟩) ⟨⟨hmmap, hpaged⟩, hplace⟩)
    ⟨⟨hstore, hpaged⟩, trivial⟩

end Page

theorem valid_pageWorld {rank : Nat} (hrank : rank ∈ [0, 1]) :
    ValidRange (pageWorld rank).ret pageCall.length :=
  (by decide : ∀ r ∈ [0, 1], ValidRange (pageWorld r).ret pageCall.length) rank hrank

theorem launchEnv_canRun {rank : Nat} (hrank : rank ∈ [0, 1]) :
    ∃ newStack ldso p, runRtld (launchEnv rank) launchSpace none = .ok (.jumped newStack ldso, p) ∧
      CanRun (valid_pageWorld hrank) p.rank := by
  have hjumps : jumpsWith (fun p => decide (CanRun (valid_pageWorld hrank) p))
      (runRtld (launchEnv rank) launchSpace none) = true := by
    obtain rfl | rfl : rank = 0 ∨ rank = 1 := by simpa using hrank
    · exact (by decide +kernel :
        jumpsWith (fun p => decide (CanRun (valid_pageWorld (.head _ : 0 ∈ [0, 1])) p))
          (runRtld (launchEnv 0) launchSpace none) = true)
    · exact (by decide +kernel :
        jumpsWith (fun p => decide (CanRun (valid_pageWorld (.tail _ (.head _) : 1 ∈ [0, 1])) p))
          (runRtld (launchEnv 1) launchSpace none) = true)
  obtain ⟨newStack, ldso, p, hrun, hcan⟩ := exists_of_jumpsWith hjumps
  exact ⟨newStack, ldso, p, hrun, of_decide_eq_true hcan⟩

/-- The processes of ranks 0 and 1 that `main` has started, checkpointed after these calls. -/
theorem exists_rankLife {rank : Nat} (hrank : rank ∈ [0, 1]) :
    ∃ (l : RankLife) (p : RankProc), l.rank = rank ∧ l.events = writtenEvents rank p ∧
      l.last = written (valid_pageWorld hrank) p ∧ l.maps = listEach l.last.space ∧
      CanRun (valid_pageWorld hrank) p := by
  obtain ⟨newStack, ldso, proc, hrun, hcan⟩ := launchEnv_canRun hrank
  let last := written (valid_pageWorld hrank) proc.rank
  let upper : Proc := ⟨.RUNNING, true, some (mmappedList last.heap.table),
    ⟨listEach last.space, last.space.bytes⟩⟩
  have hstate : upper.state ≠ .POST_RESTART := (by decide : CkptOrRestore.RUNNING ≠ _)
  obtain ⟨c, hupper, -, -⟩ := exists_checkpoint hstate blank_fits
  have hplace := (by decide : ∀ r ∈ [0, 1],
    0x2000000 ≤ givenPage r ∧ givenPage r < rankSegs.2.2.lo) rank hrank
  refine ⟨{
    toCheckpoint := c
    rank := rank
    env := ⟨launchEnv rank, fun _ => ⟨none, []⟩⟩
    argv := [cstr ['k'], cstr ['a']]
    start := launchSpace
    vvar := rankSegs.1
    vdso := rankSegs.2.1
    stack := rankSegs.2.2
    starts := starts_launchEnv hrank
    addrBin := none
    newStack := newStack
    ldso := ldso
    proc := proc
    launched := ?_
    events := writtenEvents rank proc.rank
    last := last
    run := hcan.run rfl hplace.1 hplace.2
    maps := listEach last.space
    lists := lists_listEach _
    mem := by rw [hupper]
    fnc := by rw [hupper] }, proc.rank, rfl, rfl, rfl, rfl, hcan⟩
  have hoption : ¬ strstr (cstr ['a']) restoreOption = true := by decide
  simp only [main, if_neg hoption, hrun]
  rfl

/-- The page is in the image. -/
theorem rankLife_givenPage {rank : Nat} (hrank : rank ∈ [0, 1]) :
    ∃ l : RankLife, l.rank = rank ∧ l.events.length = 3 ∧ givenPage rank ∈ l.saved.saved ∧
      l.saved.upper.mem.view.prot (givenPage rank) = some (protRead ||| protWrite) ∧
      l.saved.upper.mem.bytes (givenPage rank) = UInt8.ofNat (rank + 5) := by
  obtain ⟨l, p, hl, hevents, hlast, hmaps, -, -, a, ha, hlo, hhi, hprot⟩ := exists_rankLife hrank
  have hmem : l.saved.upper.mem = ⟨l.maps, l.last.space.bytes⟩ := l.mem
  have hrecord : a ∈ l.saved.records := by
    have hrecords : l.saved.records =
        selectRecords (some (mmappedList l.last.heap.table)) l.saved.upper.mem.maps.areas := by
      rw [SavedRank.records, Proc.records, l.saved.listed]
      rfl
    rw [hrecords, hmem, hmaps, hlast]
    exact ha
  obtain ⟨b, hb, t, -, -, hof⟩ := l.saved.mem_records hrecord
  have hx : givenPage rank ∈ a.range := Area.mem_range.2 ⟨hlo, hhi⟩
  refine ⟨l, hl, by rw [hevents]; rfl, ⟨a, hrecord, hx⟩, ?_, ?_⟩
  · rw [Mem.view_prot hb (hof.range_subset hx), ← hof.prot, hprot]
  · rw [hmem, hlast]
    simp only [written, AddrSpace.bytes_store_self]

theorem main_goesOn_twoRanks : ∃ (l m : RankLife) (env : MainEnv) (ctxs : List CkptRestartState)
    (r : Restorer) (addrBin : Option (List UInt8)), l.rank = 0 ∧ m.rank = 1 ∧
      l.events.length = 3 ∧ m.events.length = 3 ∧
      main env [cstr ['k'], restoreOption, cstr ['0'], cstr ['1']] emptySpace none =
        .ok (.waits ctxs r addrBin) ∧
      (((startRanks Counter UInt8 (fun _ => ⟨0, 0, 0, 0⟩) ctxs r).run permits
        (fun i => startRank ⟨0, 0, 0, 0⟩ (countingCpu (givenPage i)))
          [0, 1, 1, 0, 0, 1, 0, 1, 1, 0]).runners 0).output = [5] ∧
      (((startRanks Counter UInt8 (fun _ => ⟨0, 0, 0, 0⟩) ctxs r).run permits
        (fun i => startRank ⟨0, 0, 0, 0⟩ (countingCpu (givenPage i)))
          [0, 1, 1, 0, 0, 1, 0, 1, 1, 0]).runners 1).output = [6] := by
  obtain ⟨l, hl, hlevents, hlsaved, hlprot, hlbyte⟩ := @rankLife_givenPage 0 (by decide)
  obtain ⟨m, hm, hmevents, hmsaved, hmprot, hmbyte⟩ := @rankLife_givenPage 1 (by decide)
  let env : MainEnv := ⟨launchEnv 0, fun path => if path = cstr ['0'] then l.image else m.image⟩
  have himages : [cstr ['0'], cstr ['1']].map env.images = [l, m].map fun l => l.image := by
    have hne : cstr ['1'] ≠ cstr ['0'] := by decide
    simp [env, hne]
  have hsetup : ¬ (setupLowerHalfInfo (launchEnv 0).setup (launchEnv 0).loader.lhInfo none).1 < 0 := by
    decide
  obtain ⟨ctxs, r, hmain, hgoes⟩ := @main_goesOn Counter UInt8 env Kernel.plain_honest [l, m]
    (List.cons_ne_nil l [m]) (by simp [hl, hm]) (cstr ['k']) restoreOption (by decide)
    [cstr ['0'], cstr ['1']] himages emptySpace (Kernel.plain_takesAll _ _) (fun _ _ _ _ => rfl) none
    hsetup (fun i => countingCpu (givenPage i)) (fun _ => ⟨0, 0, 0, 0⟩) (fun _ => ⟨rfl, le_rfl, le_rfl⟩)
  have hall := hgoes [0, 1, 1, 0, 0, 1, 0, 1, 1, 0] ?_
  · refine ⟨l, m, env, ctxs, r, _, hl, hm, hlevents, hmevents, hmain, ?_, ?_⟩
    · rw [(hall 0 l rfl).2.runner 3 rfl, alone_countingCpu hlprot, hlbyte]
      rfl
    · rw [(hall 1 m rfl).2.runner 3 rfl, alone_countingCpu hmprot, hmbyte]
      rfl
  · intro i s hs
    match i with
    | 0 =>
        obtain rfl := Option.some.inj hs
        exact keepsTo_countingCpu hlsaved _
    | 1 =>
        obtain rfl := Option.some.inj hs
        exact keepsTo_countingCpu hmsaved _
    | i + 2 => cases hs

end CkptRestart
