import CkptRestart.ConfineAddrSpace
import CkptRestart.LastPage
import CkptRestart.Lib.SharedMemory
import CkptRestart.MemCkpt.Lifecycle

/-!
# StartRanks — all ranks go on in one process

`restoreCheckpoint` of `mem-restore.c`: when the memory of all images is there, each context gets a
thread, which takes over the fs register and the context and is then the rank.

What a rank does there is a program of `Lib.SharedMemory`, whose memory is the address space of the
restoring process.  `restoreCheckpoint_goesOn` compares it with the rank alone, going on from its
checkpoint in the memory it had then.
-/

namespace CkptRestart

open Lib SharedMemory
open Lifecycle (Entry)

/-! ## The code -/

/-- `getNumRanks`: the number of paths in front of the null pointer; of a path there is what opening it
gives. -/
def getNumRanks (ckptImgs : List Image) : Nat := ckptImgs.foldl (fun noRanks _ => noRanks + 1) 0

/-- `restoreCheckpoint` up to the point where it waits for its threads: its result, the arguments of
the threads that it creates, and the process. -/
def restoreCheckpoint (k : Kernel) (ckptImgs : List Image) (r : Restorer) :
    Exec (Int × List CkptRestartState × Restorer) :=
  let noRanks := getNumRanks ckptImgs
  -- the assertion
  if ¬ noRanks > 0 then .exited
  else do
    let (rc, ctxs, r) ← restoreMemoryForImages k ckptImgs r
    if rc < 0 then pure (rc, [], r) else pure (rc, ctxs, r)

/-- The results of the calls that create a thread and of its own, and the fs register that it is
created with. -/
structure RankCalls where
  pthreadCreate : Int
  archPrctl : Int
  setcontext : Int
  fs : Nat

/-- `restoreFs`: its result, and the register. -/
def restoreFs (fs : Nat) (calls : RankCalls) : Int × Nat :=
  if calls.archPrctl < 0 then (-1, calls.fs) else (calls.archPrctl, fs)

/-- A processor that runs a rank: the registers that it has after `setcontext`, and what it does
next. -/
structure Cpu (ρ ο : Type) where
  resume : UContext → Nat → ρ
  code : ρ → Action Nat Nat UInt8 ο ρ

/-- Where a thread stands: at the start of `startRank`, before `setcontext`, or in its rank. -/
inductive RankThread (ρ : Type)
  | startRank (arg : Option CkptRestartState)
  | setcontext (st : CkptRestartState) (fs : Nat)
  | resumed (regs : ρ)

/-- `startRank`, and the rank behind it. -/
def startRank {ρ ο : Type} (calls : RankCalls) (cpu : Cpu ρ ο) :
    RankThread ρ → Action Nat Nat UInt8 ο (RankThread ρ)
  | .startRank none => .stop
  | .startRank (some st) => .compute (.setcontext st (restoreFs st.fsAddr calls).2)
  | .setcontext st fs =>
      -- `setcontext` returns only if it fails
      if calls.setcontext < 0 then .stop else .compute (.resumed (cpu.resume st.ctx fs))
  | .resumed regs => (cpu.code regs).map .resumed

/-- An access needs one of the three permissions. -/
def permits (need prot : Nat) : Bool := decide (prot &&& need ≠ 0)

def AddrSpace.view (s : AddrSpace) : View Nat Nat UInt8 := ⟨s.protAt, s.bytes⟩

/-- The threads at their start.  Nobody looks at the result of `pthread_create`: a thread that it has
not created takes no step. -/
def startRanks (ρ ο : Type) (calls : Nat → RankCalls) (ctxs : List CkptRestartState) (r : Restorer) :
    System Nat (RankThread ρ) ο Nat Nat UInt8 where
  runners := fun i =>
    if (calls i).pthreadCreate = 0 then .start ο (.startRank ctxs[i]?)
    else { Runner.start ο (.startRank none) with ending := .stopped }
  memory := r.space.view

theorem getNumRanks_eq (ckptImgs : List Image) : getNumRanks ckptImgs = ckptImgs.length := by
  have hfold : ∀ (imgs : List Image) (n : Nat),
      imgs.foldl (fun noRanks _ => noRanks + 1) n = n + imgs.length := by
    intro imgs
    induction imgs with
    | nil => exact fun n => rfl
    | cons img imgs ih =>
        intro n
        rw [List.foldl_cons, ih, List.length_cons]
        omega
  rw [getNumRanks, hfold, Nat.zero_add]

/-! ## One thread -/

section Thread

variable {ρ ο : Type} {calls : RankCalls} {cpu : Cpu ρ ο}

/-- The thread is created, and its two calls succeed. -/
structure RankCalls.Succeed (calls : RankCalls) : Prop where
  pthreadCreate : calls.pthreadCreate = 0
  archPrctl : 0 ≤ calls.archPrctl
  setcontext : 0 ≤ calls.setcontext

theorem startRank_resumed (regs : ρ) :
    startRank calls cpu (.resumed regs) = (cpu.code regs).map .resumed := rfl

/-- After two steps a thread is its rank. -/
theorem startRank_run (hcalls : calls.Succeed) (st : CkptRestartState) (n : Nat)
    (v : View Nat Nat UInt8) :
    Runner.run permits (startRank calls cpu) (n + 2) (.start ο (.startRank (some st))) v =
      ((Runner.run permits cpu.code n (.start ο (cpu.resume st.ctx st.fsAddr)) v).1.map .resumed,
        (Runner.run permits cpu.code n (.start ο (cpu.resume st.ctx st.fsAddr)) v).2) := by
  have hfs : (restoreFs st.fsAddr calls).2 = st.fsAddr := by
    rw [restoreFs, if_neg (not_lt.2 hcalls.archPrctl)]
  have htwo : Runner.run permits (startRank calls cpu) 2 (.start ο (.startRank (some st))) v =
      ((Runner.start ο (cpu.resume st.ctx st.fsAddr)).map .resumed, v) := by
    simp [Runner.run, Runner.step, Runner.start, startRank, Runner.map, hfs,
      not_lt.2 hcalls.setcontext]
  -- from there on it is the program of the rank
  rw [Nat.add_comm, Runner.run_add, htwo]
  exact Runner.run_map permits cpu.code startRank_resumed n _ v

/-- On its way there it touches nothing. -/
theorem startRank_within (hcalls : calls.Succeed) {st : CkptRestartState} {A : Set Nat} {n : Nat}
    {v : View Nat Nat UInt8}
    (h : (Runner.start ο (cpu.resume st.ctx st.fsAddr)).Within permits cpu.code A (n - 2) v) :
    (Runner.start ο (.startRank (some st))).Within permits (startRank calls cpu) A n v := by
  intro m hm x hx
  match m with
  | 0 => simp [Runner.run, Runner.touches, Runner.start, startRank] at hx
  | 1 =>
      simp [Runner.run, Runner.step, Runner.touches, Runner.start, startRank,
        not_lt.2 hcalls.setcontext] at hx
  | m + 2 =>
      rw [startRank_run hcalls, Runner.touches_map cpu.code startRank_resumed] at hx
      exact h m (by omega) x hx

/-- A thread without an argument touches nothing at all. -/
theorem startRank_none_within (A : Set Nat) (n : Nat) (v : View Nat Nat UInt8) :
    (Runner.start ο (.startRank none)).Within permits (startRank calls cpu) A n v := by
  -- it stops in its first step, and its state stays what it was
  have hstays : ∀ m, (Runner.run permits (startRank calls cpu) m
      (.start ο (.startRank none)) v).1.state = .startRank none := by
    intro m
    induction m with
    | zero => rfl
    | succ m ih =>
        simp only [Runner.run, Runner.step, ih, startRank]
        split
        · rfl
        · exact ih
  intro m _ x hx
  simp [Runner.touches, hstays m, startRank] at hx

end Thread

/-! ## Ranks that have been checkpointed -/

/-- A run of the handler that takes an image and of which no call fails, and the reads that restore the
image. -/
structure Checkpoint where
  upper : Proc
  entry : Entry
  calls : HandlerCalls
  ctx : UContext
  before : Option (List UInt8)
  out : HandlerOut
  reads : List (Reply Errno)
  state : upper.state ≠ .POST_RESTART
  context : calls.context = some ctx
  succeed : calls.Succeed upper
  handler : entry.enter calls upper before = .ok out
  fits : (calls.savedState ctx).Fits
  ready : ∀ content, out.file = some content → (⟨content, reads⟩ : InFile).Ready

namespace Checkpoint

variable (c : Checkpoint)

def st : CkptRestartState := c.calls.savedState c.ctx

/-- The file that the handler has left. -/
def image : Image := ⟨c.out.file, c.reads⟩

theorem file_eq : c.out.file = some (imageBytes c.st c.upper.mem c.upper.records) := by
  obtain ⟨hout, hrun, hret⟩ := Exec.bind_eq_ok_iff.1 c.handler
  obtain ⟨out, hrun', -, hfile⟩ := checkpointHandler_succeeds c.before c.succeed.opens c.context
    c.succeed.maps c.succeed.writes c.state
  obtain rfl := Exec.ok.inj (hrun.symm.trans hrun')
  rw [← Exec.ok.inj hret]
  exact hfile

/-- What restoring the image is about. -/
def rankImage : RankImage := ⟨c.st, c.upper.mem, c.upper.records, c.reads⟩

theorem image_eq : c.image = c.rankImage.image := by
  rw [image, c.file_eq]
  rfl

theorem readable : c.rankImage.Readable := ⟨c.fits, c.ready _ c.file_eq⟩

end Checkpoint

/-- Outside of a restart, `doCheckpoint` can save any context that fits. -/
theorem exists_checkpoint {upper : Proc} (hstate : upper.state ≠ .POST_RESTART) {st : CkptRestartState}
    (hst : st.Fits) : ∃ c : Checkpoint, c.upper = upper ∧ c.entry = .api ∧ c.st = st := by
  let calls : HandlerCalls :=
    ⟨true, some st.ctx, st.sp, st.fsAddr, true, (imageRequests upper.records).map .moved⟩
  have hwrites : Delivers retries calls.writes (imageRequests upper.records) :=
    delivers_moved retries _
  obtain ⟨out, hrun, -⟩ := @checkpointHandler_succeeds calls upper _ none rfl rfl rfl hwrites hstate
  refine ⟨{
    upper := upper
    entry := .api
    calls := calls
    ctx := st.ctx
    before := none
    out := { out with proc := Entry.api.returnFrom out.proc }
    reads := byteReads (out.file.getD [])
    state := hstate
    context := rfl
    succeed := ⟨rfl, Option.some_ne_none _, rfl, hwrites⟩
    handler := by rw [Entry.enter, hrun]; rfl
    fits := hst
    ready := ?_ }, rfl, rfl, rfl⟩
  intro content hcontent
  have hfile : out.file = some content := hcontent
  rw [hfile]
  exact ready_byteReads content

/-- A rank at its checkpoint.  What the lower half tracks for it lies in its window. -/
structure SavedRank extends Checkpoint where
  rank : Nat
  tracked : List MmapInfo
  listed : upper.fnc = some tracked
  areas : ∀ a ∈ upper.mem.maps.areas, a.addr < a.endAddr
  valid : ∀ t ∈ tracked, ValidRange t.addr t.len
  confined : ∀ t ∈ tracked, t.range ⊆ window rank

/-- The memory of a process, with the protections of its areas. -/
def Mem.view (m : Mem) : View Nat Nat UInt8 where
  prot := fun x => (m.maps.areas.find? fun a => decide (a.addr ≤ x ∧ x < a.endAddr)).map Area.prot
  bytes := m.bytes

theorem Mem.view_prot {m : Mem} {b : Area} (hb : b ∈ m.maps.areas) {x : Nat} (hx : x ∈ b.range) :
    m.view.prot x = some b.prot := by
  show (m.maps.areas.find? fun a => decide (a.addr ≤ x ∧ x < a.endAddr)).map Area.prot = _
  cases hfind : m.maps.areas.find? fun a => decide (a.addr ≤ x ∧ x < a.endAddr) with
  | none =>
      have hnot := List.find?_eq_none.1 hfind b hb
      simp only [decide_eq_true_eq] at hnot
      exact absurd (Area.mem_range.1 hx) hnot
  | some a =>
      have hhit := List.find?_some hfind
      simp only [decide_eq_true_eq] at hhit
      rw [Area.eq_of_mem_range m.maps.disjoint (List.mem_of_find?_eq_some hfind) hb
        (Area.mem_range.2 hhit) hx]
      rfl

/-- The memory as the maps file shows it is the memory. -/
theorem Lists.view_eq {s : AddrSpace} {l : MapsSnapshot} (h : Lists s l) :
    (⟨l, s.bytes⟩ : Mem).view = s.view := by
  have hprot : (⟨l, s.bytes⟩ : Mem).view.prot = s.protAt := by
    funext x
    cases hlookup : s.maps.lookup x with
    | none =>
        have hnone : l.areas.find? (fun a => decide (a.addr ≤ x ∧ x < a.endAddr)) = none := by
          refine List.find?_eq_none.2 fun a ha hx => ?_
          obtain ⟨g, hg, hxg, -⟩ := h.sound a ha x (Area.mem_range.2 (of_decide_eq_true hx))
          exact RangeMap.lookup_eq_none_iff.1 hlookup g hg hxg
        rw [AddrSpace.protAt, hlookup, Option.map_none]
        exact congrArg (Option.map Area.prot) hnone
    | some m =>
        obtain ⟨g, hg, hxg, rfl⟩ := RangeMap.lookup_eq_some_iff.1 hlookup
        -- the address is in an area of the maps file, which has the protection of its mapping
        obtain ⟨a, ha, hlo, hhi⟩ := h.complete g hg
        have hxa : x ∈ a.range := Area.mem_range.2 ⟨hlo.trans hxg.1, lt_of_lt_of_le hxg.2 hhi⟩
        obtain ⟨g', hg', hxg', hprot, -⟩ := h.sound a ha x hxa
        obtain rfl := RangeMap.eq_of_has hg' hg hxg' hxg
        rw [AddrSpace.protAt, hlookup, Option.map_some, hprot]
        exact Mem.view_prot ha hxa
  exact congrArg (View.mk · s.bytes) hprot

/-- A record lies in the tracked region that it was selected for. -/
theorem RecordOf.region {area : Area} {t : MmapInfo} {r : Area} (h : RecordOf area t r) :
    t.addr ≤ r.addr ∧ r.endAddr ≤ t.addr + t.len := by
  have hwrap : t.uhMmapEnd ≤ t.addr + t.len := Nat.mod_le _ _
  rcases h.bounds with ⟨rfl, hlo, hhi⟩ | ⟨haddr, hend, _⟩
  · exact ⟨hlo, hhi.trans hwrap⟩
  · exact ⟨le_of_eq haddr.symm, hend.trans_le hwrap⟩

/-- Pages that a window has a byte of are in the window: it starts and ends with a page. -/
theorem pages_subset_window {addr len rank : Nat} (hvalid : ValidRange addr len)
    (hin : Set.Ico addr (addr + len) ⊆ window rank) :
    Set.Ico addr (addr + pagesUp len) ⊆ window rank := by
  have hpos := hvalid.pos
  have hend : PageAligned (addrSpaceSize * (rank + 2)) :=
    Nat.dvd_trans (by decide : pageSize ∣ addrSpaceSize) (Nat.dvd_mul_right _ _)
  obtain ⟨hlo, hhi⟩ := (Set.Ico_subset_Ico_iff (by omega)).1 hin
  have hpages : pagesUp len ≤ addrSpaceSize * (rank + 2) - addr :=
    pagesUp_le (by omega) (Nat.dvd_sub hend hvalid.aligned)
  exact Set.Ico_subset_Ico hlo (by omega)

namespace SavedRank

variable (p : SavedRank)

def records : List Area := p.upper.records

/-- The addresses that are in the image. -/
def saved : Set Nat := covered p.records

theorem mappableAll : MappableAll p.records := by
  rw [records, Proc.records, p.listed]
  exact selectRecords_mappable p.areas p.valid

theorem mem_records {a : Area} (ha : a ∈ p.records) :
    ∃ b ∈ p.upper.mem.maps.areas, ∃ t ∈ p.tracked, b.readable = true ∧ RecordOf b t a := by
  rw [records, Proc.records, p.listed] at ha
  rcases mem_selectRecords.1 ha with ⟨b, hb, hread, _, t, hfind, rfl⟩
  exact ⟨b, hb, t, List.mem_of_find?_eq_some hfind, hread, recordAt_spec (nests_of_find? hfind)⟩

theorem range_subset {a : Area} (ha : a ∈ p.records) : a.range ⊆ window p.rank := by
  obtain ⟨b, -, t, ht, -, hrecord⟩ := p.mem_records ha
  intro x hx
  have hregion := hrecord.region
  rw [Area.mem_range] at hx
  exact p.confined t ht (MmapInfo.mem_range.2 ⟨by omega, by omega⟩)

theorem pages_subset {a : Area} (ha : a ∈ p.records) : a.pages ⊆ window p.rank := by
  have hmappable := p.mappableAll.each a ha
  have hrange := p.range_subset ha
  rw [Area.range, hmappable.endAddr] at hrange
  exact pages_subset_window hmappable.valid hrange

theorem saved_subset : p.saved ⊆ window p.rank := by
  rintro x ⟨a, ha, hx⟩
  exact p.range_subset ha hx

end SavedRank

/-- What restoring the ranks asks the kernel for. -/
def savedAll (ranks : List SavedRank) : List SavedRecord :=
  allSaved (ranks.map fun p => p.rankImage)

section SavedRanks

variable {ranks : List SavedRank}

theorem mem_allRecords_savedRanks {a : Area} :
    a ∈ allRecords (ranks.map fun p => p.rankImage) ↔ ∃ p ∈ ranks, a ∈ p.records := by
  simp [allRecords, SavedRank.records, Checkpoint.rankImage]

/-- The records of distinct ranks lie in different windows. -/
theorem mappableAll_savedRanks (hdistinct : ranks.Pairwise fun p q => p.rank ≠ q.rank) :
    MappableAll (allRecords (ranks.map fun p => p.rankImage)) where
  each := by
    intro a ha
    obtain ⟨p, _, hap⟩ := mem_allRecords_savedRanks.1 ha
    exact p.mappableAll.each a hap
  disjoint := by
    rw [allRecords, List.pairwise_flatMap, List.pairwise_map]
    refine ⟨?_, hdistinct.imp ?_⟩
    · intro img himg
      obtain ⟨p, _, rfl⟩ := List.mem_map.1 himg
      exact p.mappableAll.disjoint
    · intro p q hne a ha b hb
      exact (disjoint_window hne).mono (p.pages_subset ha) (q.pages_subset hb)

/-- Windows that are free have room for the records. -/
theorem placed_savedRanks (hdistinct : ranks.Pairwise fun p q => p.rank ≠ q.rank) {s : AddrSpace}
    (hfree : ∀ p ∈ ranks, ∀ x ∈ window p.rank, s.protAt x = none) : Placed s (savedAll ranks) := by
  refine (mappableAll_savedRanks hdistinct).placedAll fun a ha => ?_
  obtain ⟨p, hp, hap⟩ := mem_allRecords_savedRanks.1 ha
  refine (RangeMap.free_iff (p.mappableAll.each a hap).valid.lt_end).2 fun x hlo hhi => ?_
  exact Option.map_eq_none_iff.1 (hfree p hp x (p.pages_subset hap ⟨hlo, hhi⟩))

end SavedRanks

/-! ## All ranks in one process -/

/-- What was restored of a rank looks as it did when the rank was checkpointed. -/
theorem Holds.agree {ranks : List SavedRank} {s s' : AddrSpace} (h : Holds s s' (savedAll ranks))
    {p : SavedRank} (hp : p ∈ ranks) : (p.upper.mem.view).Agree p.saved s'.view := by
  have hsub : p.upper.mem.saved p.records ⊆ savedAll ranks :=
    fun e he => List.mem_flatMap.2 ⟨_, List.mem_map_of_mem hp, he⟩
  have hholds : ∀ a ∈ p.records, ∀ x ∈ a.range,
      s'.bytes x = p.upper.mem.bytes x ∧ s'.protAt x = some a.prot := by
    intro a ha x hx
    have hend := (p.mappableAll.each a ha).endAddr
    have hpages := le_pagesUp a.size
    rw [Area.mem_range] at hx
    obtain ⟨hbytes, hprot⟩ := h.saved hsub p.mappableAll.each ha
      (Area.mem_pages.2 ⟨hx.1, by omega⟩)
    rw [if_pos (by omega)] at hbytes
    exact ⟨hbytes, hprot⟩
  constructor
  · rintro x ⟨a, ha, hx⟩
    -- a record has the protection of the area it lies in
    obtain ⟨b, hb, t, -, -, hrecord⟩ := p.mem_records ha
    rw [Mem.view_prot hb (hrecord.range_subset hx), ← hrecord.prot]
    exact (hholds a ha x hx).2.symm
  · rintro x ⟨a, ha, hx⟩
    exact (hholds a ha x hx).1.symm

/-- With images of distinct ranks and their windows free, every rank gets a thread. -/
theorem restoreCheckpoint_ok {k : Kernel} (hk : k.Honest) {ranks : List SavedRank}
    (hne : ranks ≠ []) (hdistinct : ranks.Pairwise fun p q => p.rank ≠ q.rank) {r : Restorer}
    (htakes : k.TakesAll (savedAll ranks) r)
    (hfree : ∀ p ∈ ranks, ∀ x ∈ window p.rank, r.space.protAt x = none) :
    restoreCheckpoint k (ranks.map fun p => p.image) r =
        .ok (0, ranks.map fun p => p.st, restoredAll (savedAll ranks) r) ∧
      ∀ p ∈ ranks, (p.upper.mem.view).Agree p.saved (restoredAll (savedAll ranks) r).space.view := by
  have hplaced := placed_savedRanks hdistinct hfree
  have hreadable : ∀ img ∈ ranks.map fun p => p.rankImage, img.Readable := by
    intro img himg
    obtain ⟨p, _, rfl⟩ := List.mem_map.1 himg
    exact p.readable
  have hfits : ∀ a ∈ allRecords (ranks.map fun p => p.rankImage), a.Fits :=
    fun a ha => ((mappableAll_savedRanks hdistinct).each a ha).fits
  have hrestore := restoreMemoryForImages_spec hk hreadable hfits hplaced htakes
  have himages : (ranks.map fun p => p.rankImage).map RankImage.image = ranks.map fun p => p.image := by
    rw [List.map_map]
    exact List.map_congr_left fun p _ => p.image_eq.symm
  rw [himages, List.map_map] at hrestore
  have hpos : ¬ ¬ getNumRanks (ranks.map fun p => p.image) > 0 := by
    rw [getNumRanks_eq, List.length_map]
    exact not_not.2 (List.length_pos_iff.2 hne)
  constructor
  · rw [restoreCheckpoint, if_neg hpos, hrestore]
    rfl
  · exact fun p hp => (restoredAll_holds hplaced).agree hp

section GoesOn

variable {ρ ο : Type}

/-- The rank alone, `n` steps after its checkpoint. -/
def SavedRank.alone (p : SavedRank) (cpu : Cpu ρ ο) (n : Nat) : Runner ρ ο × View Nat Nat UInt8 :=
  Runner.run permits cpu.code n (.start ο (cpu.resume p.st.ctx p.st.fsAddr)) p.upper.mem.view

/-- For `n` steps the rank alone touches only what is in its image. -/
def SavedRank.KeepsTo (p : SavedRank) (cpu : Cpu ρ ο) (n : Nat) : Prop :=
  (Runner.start ο (cpu.resume p.st.ctx p.st.fsAddr)).Within permits cpu.code p.saved n p.upper.mem.view

/-- After two steps of its own, the thread `i` is where the rank `p` would be alone, and sees the
memory that it would see. -/
structure GoesOn (p : SavedRank) (cpu : Cpu ρ ο) (s : System Nat (RankThread ρ) ο Nat Nat UInt8)
    (i steps : Nat) : Prop where
  runner : ∀ n, steps = n + 2 → s.runners i = (p.alone cpu n).1.map .resumed
  memory : ∀ n, steps = n + 2 → (p.alone cpu n).2.Agree p.saved s.memory

theorem rank_ne_of_getElem? {ranks : List SavedRank}
    (hdistinct : ranks.Pairwise fun p q => p.rank ≠ q.rank) {i j : Nat} {p q : SavedRank}
    (hi : ranks[i]? = some p) (hj : ranks[j]? = some q) (hij : i ≠ j) : p.rank ≠ q.rank := by
  obtain ⟨hilt, rfl⟩ := List.getElem?_eq_some_iff.1 hi
  obtain ⟨hjlt, rfl⟩ := List.getElem?_eq_some_iff.1 hj
  rcases Nat.lt_or_gt_of_ne hij with hlt | hlt
  · exact List.pairwise_iff_getElem.1 hdistinct i j hilt hjlt hlt
  · exact (List.pairwise_iff_getElem.1 hdistinct j i hjlt hilt hlt).symm

/-- What the thread `i` finds in the image of its rank; a thread without a rank has nothing there. -/
def savedAt (ranks : List SavedRank) (i : Nat) : Set Nat := (ranks[i]?).elim ∅ SavedRank.saved

/-- The memory that its rank had at the checkpoint. -/
def viewAt (ranks : List SavedRank) (r : Restorer) (i : Nat) : View Nat Nat UInt8 :=
  (ranks[i]?).elim r.space.view fun p => p.upper.mem.view

section Threads

variable {ranks : List SavedRank} {r : Restorer} {i j : Nat} {p : SavedRank}

theorem savedAt_eq (hi : ranks[i]? = some p) : savedAt ranks i = p.saved := by
  rw [savedAt, hi, Option.elim_some]

theorem savedAt_eq_empty (hi : ranks[i]? = none) : savedAt ranks i = ∅ := by
  rw [savedAt, hi, Option.elim_none]

theorem viewAt_eq (hi : ranks[i]? = some p) : viewAt ranks r i = p.upper.mem.view := by
  rw [viewAt, hi, Option.elim_some]

/-- What two ranks have saved lies in two windows. -/
theorem disjoint_savedAt (hdistinct : ranks.Pairwise fun p q => p.rank ≠ q.rank) (hij : i ≠ j) :
    Disjoint (savedAt ranks i) (savedAt ranks j) := by
  cases hi : ranks[i]? with
  | none =>
      rw [savedAt_eq_empty hi]
      exact Set.empty_disjoint _
  | some p =>
      cases hj : ranks[j]? with
      | none =>
          rw [savedAt_eq_empty hj]
          exact Set.disjoint_empty _
      | some q =>
          rw [savedAt_eq hi, savedAt_eq hj]
          exact (disjoint_window (rank_ne_of_getElem? hdistinct hi hj hij)).mono p.saved_subset
            q.saved_subset

theorem agree_savedAt (hagree : ∀ p ∈ ranks, (p.upper.mem.view).Agree p.saved r.space.view) (i : Nat) :
    (viewAt ranks r i).Agree (savedAt ranks i) r.space.view := by
  cases hi : ranks[i]? with
  | none =>
      rw [savedAt_eq_empty hi]
      exact ⟨fun _ hx => absurd hx (Set.notMem_empty _), fun _ hx => absurd hx (Set.notMem_empty _)⟩
  | some p =>
      rw [savedAt_eq hi, viewAt_eq hi]
      exact hagree p (List.mem_of_getElem? hi)

/-- Each thread is at its start, with the context of its rank. -/
theorem runners_startRanks {calls : Nat → RankCalls} (hcalls : ∀ i, (calls i).Succeed) (i : Nat) :
    (startRanks ρ ο calls (ranks.map fun p => p.st) r).runners i =
      .start ο (.startRank ((ranks[i]?).map fun p => p.st)) := by
  simp [startRanks, (hcalls i).pthreadCreate]

/-- A thread keeps to its image if its rank does. -/
theorem within_startRanks {cpu : Nat → Cpu ρ ο} {calls : Nat → RankCalls}
    (hcalls : ∀ i, (calls i).Succeed) {n : Nat}
    (hkeeps : ∀ p : SavedRank, ranks[i]? = some p → p.KeepsTo (cpu i) (n - 2)) :
    ((startRanks ρ ο calls (ranks.map fun p => p.st) r).runners i).Within permits
      (startRank (calls i) (cpu i)) (savedAt ranks i) n (viewAt ranks r i) := by
  rw [runners_startRanks hcalls]
  cases hi : ranks[i]? with
  | none => exact startRank_none_within _ _ _
  | some p =>
      rw [savedAt_eq hi, viewAt_eq hi]
      exact startRank_within (hcalls i) (hkeeps p hi)

end Threads

/-- On a memory where each finds what was in its image, the ranks do not notice each other. -/
theorem goesOn_of_agree {ranks : List SavedRank}
    (hdistinct : ranks.Pairwise fun p q => p.rank ≠ q.rank) {r' : Restorer}
    (hagree : ∀ p ∈ ranks, (p.upper.mem.view).Agree p.saved r'.space.view) (cpu : Nat → Cpu ρ ο)
    {calls : Nat → RankCalls} (hcalls : ∀ i, (calls i).Succeed) {order : List Nat}
    (hkeeps : ∀ i (p : SavedRank), ranks[i]? = some p → p.KeepsTo (cpu i) (order.count i - 2)) :
    ∀ i (p : SavedRank), ranks[i]? = some p →
      GoesOn p (cpu i) ((startRanks ρ ο calls (ranks.map fun p => p.st) r').run permits
        (fun i => startRank (calls i) (cpu i)) order) i (order.count i) := by
  intro i p hi
  -- the threads run as if each were alone, and a thread alone is its rank after two steps
  have halone := System.run_isolated permits (fun i => startRank (calls i) (cpu i))
    (fun _ _ hij => disjoint_savedAt hdistinct hij) (agree_savedAt hagree)
    (fun i => within_startRanks hcalls (hkeeps i)) i
  refine ⟨fun n hn => ?_, fun n hn => ?_⟩
  · rw [halone.runner, runners_startRanks hcalls, hi, hn, viewAt_eq hi]
    exact congrArg Prod.fst (startRank_run (hcalls i) p.st n p.upper.mem.view)
  · have hmemory := halone.memory
    rw [runners_startRanks hcalls, hi, hn, viewAt_eq hi, savedAt_eq hi] at hmemory
    have hrun' := @startRank_run ρ ο (calls i) (cpu i) (hcalls i) p.st n p.upper.mem.view
    rw [Option.map_some, congrArg Prod.snd hrun'] at hmemory
    exact hmemory

/-- Whatever the order in which the threads take their steps, every rank goes on as it would have done
alone, as long as each keeps to what is in its image. -/
theorem restoreCheckpoint_goesOn {k : Kernel} (hk : k.Honest) {ranks : List SavedRank}
    (hne : ranks ≠ []) (hdistinct : ranks.Pairwise fun p q => p.rank ≠ q.rank) {r : Restorer}
    (htakes : k.TakesAll (savedAll ranks) r)
    (hfree : ∀ p ∈ ranks, ∀ x ∈ window p.rank, r.space.protAt x = none) (cpu : Nat → Cpu ρ ο)
    {calls : Nat → RankCalls} (hcalls : ∀ i, (calls i).Succeed) :
    ∃ ctxs r', restoreCheckpoint k (ranks.map fun p => p.image) r = .ok (0, ctxs, r') ∧
      ∀ order : List Nat,
        (∀ i (p : SavedRank), ranks[i]? = some p → p.KeepsTo (cpu i) (order.count i - 2)) →
        ∀ i (p : SavedRank), ranks[i]? = some p →
          GoesOn p (cpu i) ((startRanks ρ ο calls ctxs r').run permits
            (fun i => startRank (calls i) (cpu i)) order) i (order.count i) := by
  rcases restoreCheckpoint_ok hk hne hdistinct htakes hfree with ⟨hrun, hagree⟩
  exact ⟨_, _, hrun, fun order hkeeps => goesOn_of_agree hdistinct hagree cpu hcalls hkeeps⟩

end GoesOn

/-! ## Two ranks -/

/-- The first page of a window. -/
def firstPage (rank : Nat) : Area := pageAt (addrSpaceSize * (rank + 1))

theorem firstPage_restorable {rank : Nat} (hrank : rank < 2 ^ 31) : Restorable (firstPage rank) := by
  refine pageAt_restorable ?_ ?_
  · exact Nat.dvd_trans (by decide : pageSize ∣ addrSpaceSize) (Nat.dvd_mul_right _ _)
  · unfold addrSpaceSize wordSize
    omega

/-- A rank with a page, all of whose bytes are `rank + 1`. -/
def pageMem (rank : Nat) (hrank : rank < 2 ^ 31) : Mem where
  maps :=
    { areas := [firstPage rank]
      fits := by simpa using (firstPage_restorable hrank).fits
      ordered := by simp [firstPage, pageAt]
      sized := by simp [firstPage, pageAt]
      aligned := by
        have hpage := firstPage_restorable hrank
        have hend : PageAligned (firstPage rank).endAddr := by
          rw [hpage.endAddr]
          exact Nat.dvd_add hpage.valid.aligned hpage.whole
        simpa using ⟨hpage.valid.aligned, hend⟩
      disjoint := List.pairwise_singleton _ _ }
  bytes := fun _ => UInt8.ofNat (rank + 1)

theorem selectRecords_pageMem {rank : Nat} (hrank : rank < 2 ^ 31) :
    selectRecords (some [regionOf (firstPage rank)]) (pageMem rank hrank).maps.areas =
      [firstPage rank] := by
  have hend := uhMmapEnd_regionOf (firstPage_restorable hrank)
  have hinside : regionContains (regionOf (firstPage rank)).addr (regionOf (firstPage rank)).uhMmapEnd
      (firstPage rank).addr (firstPage rank).endAddr = true := by
    rw [hend]
    exact regionContains_iff.2 ⟨le_rfl, le_rfl⟩
  have hnest : nests (firstPage rank) (regionOf (firstPage rank)) = true := by
    rw [nests, hinside, Bool.true_or]
  have hread : (firstPage rank).readable = true :=
    (by decide : decide ((protRead ||| protWrite) &&& protRead ≠ 0) = true)
  have hname : skippedName (firstPage rank).name = false := (by decide : skippedName [] = false)
  have hrecord : recordOf (some [regionOf (firstPage rank)]) (firstPage rank) =
      some (firstPage rank) :=
    recordOf_eq_some_iff.2 ⟨hread, hname, regionOf (firstPage rank),
      List.find?_cons_of_pos hnest, recordAt_of_inside hinside⟩
  show [firstPage rank].filterMap _ = _
  rw [List.filterMap_cons_some hrecord, List.filterMap_nil]

/-- The upper half of a rank with a page. -/
def pageProc (rank : Nat) (hrank : rank < 2 ^ 31) : Proc where
  state := .RUNNING
  initialized := true
  fnc := some [regionOf (firstPage rank)]
  mem := pageMem rank hrank

theorem records_pageProc {rank : Nat} (hrank : rank < 2 ^ 31) :
    (pageProc rank hrank).records = [firstPage rank] := selectRecords_pageMem hrank

theorem exists_savedRank (rank : Nat) (hrank : rank < 2 ^ 31) :
    ∃ p : SavedRank, p.rank = rank ∧ p.upper = pageProc rank hrank ∧ p.entry = .api ∧
      p.tracked = [regionOf (firstPage rank)] := by
  have hpage := firstPage_restorable hrank
  have hstate : (pageProc rank hrank).state ≠ .POST_RESTART := (by decide : CkptOrRestore.RUNNING ≠ _)
  obtain ⟨c, hupper, hentry, -⟩ := exists_checkpoint hstate blank_fits
  refine ⟨{
    toCheckpoint := c
    rank := rank
    tracked := [regionOf (firstPage rank)]
    listed := by rw [hupper]; rfl
    areas := by simpa [hupper, pageProc, pageMem] using hpage.addr_lt
    valid := by simpa [regionOf] using hpage.valid
    confined := ?_ }, rfl, hupper, hentry, rfl⟩
  intro t ht x hx
  obtain rfl := List.mem_singleton.1 ht
  simp only [regionOf, firstPage, pageAt, MmapInfo.mem_range] at hx
  simp only [window, Set.mem_Ico]
  unfold addrSpaceSize at *
  omega

/-- Where a program stands that counts. -/
inductive Counter
  | idle
  | loaded (b : UInt8)
  | told (b : UInt8)

/-- A program that counts in the byte at `x`, and puts out each number. -/
def countingCpu (x : Nat) : Cpu Counter UInt8 where
  resume := fun _ _ => .idle
  code := fun
    | .idle => .load protRead x .loaded
    | .loaded b => .emit b (.told b)
    | .told b => .store protWrite x (b + 1) .idle

/-- It touches that byte and nothing else. -/
theorem touches_countingCpu {x y : Nat} {r : Runner Counter UInt8}
    (h : r.touches (countingCpu x).code = some y) : y = x := by
  obtain ⟨state, ending, output⟩ := r
  cases state <;> cases ending <;> simp [Runner.touches, countingCpu] at h <;> exact h.symm

theorem keepsTo_countingCpu {p : SavedRank} {x : Nat} (hsaved : x ∈ p.saved) (n : Nat) :
    p.KeepsTo (countingCpu x) n := by
  intro m _ y hy
  rwa [touches_countingCpu hy]

/-- In three steps it puts out the byte and adds one to it, if the byte can be read and written. -/
theorem alone_countingCpu {p : SavedRank} {x : Nat}
    (hprot : p.upper.mem.view.prot x = some (protRead ||| protWrite)) :
    p.alone (countingCpu x) 3 =
      (⟨.idle, .running, [p.upper.mem.bytes x]⟩,
        ⟨p.upper.mem.view.prot,
          Function.update p.upper.mem.bytes x (p.upper.mem.bytes x + 1)⟩) := by
  have hallows : ∀ kind, kind = protRead ∨ kind = protWrite →
      p.upper.mem.view.allows permits kind x = true := by
    rintro kind (rfl | rfl) <;> rw [View.allows, hprot] <;> decide
  have hbytes : p.upper.mem.view.bytes = p.upper.mem.bytes := rfl
  simp [SavedRank.alone, Runner.run, Runner.step, Runner.start, countingCpu, hallows, hbytes]

/-- The page of a rank can be read and written, and holds the number of the rank. -/
theorem pageProc_byte {p : SavedRank} {rank : Nat} {hrank : rank < 2 ^ 31}
    (hupper : p.upper = pageProc rank hrank) :
    (firstPage rank).addr ∈ p.saved ∧
      p.upper.mem.view.prot (firstPage rank).addr = some (protRead ||| protWrite) ∧
      p.upper.mem.bytes (firstPage rank).addr = UInt8.ofNat (rank + 1) := by
  have hpage : firstPage rank ∈ p.records := by
    rw [SavedRank.records, hupper, records_pageProc]
    exact List.mem_singleton.2 rfl
  have haddr : (firstPage rank).addr ∈ (firstPage rank).range :=
    Area.mem_range.2 ⟨le_rfl, (firstPage_restorable hrank).addr_lt⟩
  rw [hupper]
  exact ⟨⟨_, hpage, haddr⟩, Mem.view_prot (List.mem_singleton.2 rfl) haddr, rfl⟩

theorem restoreCheckpoint_goesOn_twoRanks :
    ∃ (ranks : List SavedRank) (ctxs : List CkptRestartState) (r' : Restorer),
      ranks.map SavedRank.rank = [0, 1] ∧
        restoreCheckpoint .plain (ranks.map fun p => p.image) emptyRestorer = .ok (0, ctxs, r') ∧
        (((startRanks Counter UInt8 (fun _ => ⟨0, 0, 0, 0⟩) ctxs r').run permits
          (fun i => startRank ⟨0, 0, 0, 0⟩ (countingCpu (firstPage i).addr))
            [0, 1, 1, 0, 0, 1, 0, 1, 1, 0]).runners 0).output = [1] ∧
        (((startRanks Counter UInt8 (fun _ => ⟨0, 0, 0, 0⟩) ctxs r').run permits
          (fun i => startRank ⟨0, 0, 0, 0⟩ (countingCpu (firstPage i).addr))
            [0, 1, 1, 0, 0, 1, 0, 1, 1, 0]).runners 1).output = [2] := by
  obtain ⟨p, hp, hpupper, -, -⟩ := exists_savedRank 0 (by decide)
  obtain ⟨q, hq, hqupper, -, -⟩ := exists_savedRank 1 (by decide)
  obtain ⟨hpsaved, hpprot, hpbyte⟩ := pageProc_byte hpupper
  obtain ⟨hqsaved, hqprot, hqbyte⟩ := pageProc_byte hqupper
  have hcalls : ∀ i : Nat, RankCalls.Succeed ⟨0, 0, 0, 0⟩ := fun _ => ⟨rfl, le_rfl, le_rfl⟩
  obtain ⟨ctxs, r', hrun, hgoes⟩ := restoreCheckpoint_goesOn Kernel.plain_honest
    (List.cons_ne_nil p [q]) (by simp [hp, hq]) (r := emptyRestorer) (Kernel.plain_takesAll _ _)
    (fun _ _ _ _ => rfl) (fun i => countingCpu (firstPage i).addr) hcalls
  have hall := hgoes [0, 1, 1, 0, 0, 1, 0, 1, 1, 0] ?_
  · refine ⟨[p, q], ctxs, r', by simp [hp, hq], hrun, ?_, ?_⟩
    · rw [(hall 0 p rfl).runner 3 rfl, alone_countingCpu hpprot, hpbyte]
      rfl
    · rw [(hall 1 q rfl).runner 3 rfl, alone_countingCpu hqprot, hqbyte]
      rfl
  · intro i s hs
    match i with
    | 0 =>
        obtain rfl := Option.some.inj hs
        exact keepsTo_countingCpu hpsaved _
    | 1 =>
        obtain rfl := Option.some.inj hs
        exact keepsTo_countingCpu hqsaved _
    | i + 2 => cases hs

end CkptRestart
