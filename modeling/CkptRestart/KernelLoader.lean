import CkptRestart.CustomLoader.Symbols
import CkptRestart.DeepCopyStack.StartStack
import CkptRestart.LhInfoFile
import CkptRestart.MemCkpt.LiveStack
import CkptRestart.PatchLibc.Trampoline
import CkptRestart.RoundTrip

/-!
# KernelLoader — from the loader to ld.so

`runRtld` of `kernel-loader.c`: the process leaves itself nothing but the window of its rank, loads
ld.so into it, makes a stack and a heap, diverts the `mmap` and the `sbrk` of ld.so to the wrappers,
writes down where these are, and jumps.

`runRtld_handsOver` says what ld.so finds whenever it is reached.
-/

namespace CkptRestart

open Lib

/-! ## The code -/

/-- What the calls of `setupLowerHalfInfo` return: the fs register, whether `addr.bin` can be opened,
and how much of the structure is written, unless `write` fails. -/
structure SetupCalls where
  archPrctl : Int
  fs : Nat
  opens : Bool
  written : Option Nat

/-- `writeLhInfoToFile` with the results of its calls. -/
def SetupCalls.writeLhInfoToFile (calls : SetupCalls) (l : LowerHalfInfo)
    (file : Option (List UInt8)) : Int × Option (List UInt8) :=
  if calls.opens = false then (-1, file)
  else
    match calls.written with
    -- compared with a size, -1 is not less
    | none => (-1, some (file.getD []))
    | some n =>
        let file := overwrite 0 (file.getD []) 0 ((encodeLhInfo l).take n)
        if n < lhInfoSize then (-1, some file) else (n, some file)

/-- `setupLowerHalfInfo`; `code` are the addresses of the four functions, and what the register is at
first. -/
def setupLowerHalfInfo (calls : SetupCalls) (code : LowerHalfInfo) (file : Option (List UInt8)) :
    Int × LowerHalfInfo × Option (List UInt8) :=
  if calls.archPrctl < 0 then (-1, code, file)
  else
    let lhInfo := { code with lhFsAddr := calls.fs }
    let (rc, file) := calls.writeLhInfoToFile lhInfo file
    if rc < 0 then (-1, lhInfo, file) else (0, lhInfo, file)

/-- What the loader finds around it. -/
structure RtldEnv where
  confine : ConfineEnv
  /-- The functions of the lower half are in `loader.lhInfo`. -/
  loader : LoaderEnv
  brk : Nat
  environ : Nat
  fuel : Nat
  /-- Where the kernel makes a mapping without `MAP_FIXED`, if it does. -/
  place : AddrSpace → MmapCall → Option Nat
  stat : Option (List UInt8)
  setup : SetupCalls

namespace RtldEnv

variable (env : RtldEnv)

/-- An anonymous mapping at a place of the kernel's choice. -/
def mmap (s : AddrSpace) (c : MmapCall) : MmapWorld × AddrSpace :=
  match env.place s c with
  | none => (⟨mapFailed, .ENOMEM, none⟩, s)
  | some addr =>
      if h : ValidRange addr c.length then
        (⟨addr, .EINVAL, none⟩, s.mapFixed addr c.length c.prot h)
      else (⟨mapFailed, .EINVAL, none⟩, s)

/-- `createNewStackForRtld`, with the copy -/
def createNewStackForRtld (info : DynObjInfo) (p : RankProc) : Exec (Nat × RankProc) :=
  let stack := env.confine.getStackRegion p.space
  let (world, space) := env.mmap p.space (newStackCall stack)
  let (newStack, table) := CkptRestart.createNewStackForRtld p.heap.table stack world
  let p : RankProc := ⟨{ p.heap with table := table }, space,
    p.regions ++ (mappedBy (newStackCall stack) world).toList⟩
  match newStack with
  | none => pure (0, p)
  | some newStack => do
      let (newStackEnd, bytes) ← copyStackForRtld env.fuel env.environ newStack stack
        (readStartStack env.stat) info space.bytes
      pure (newStackEnd, { p with space := { space with bytes := bytes } })

/-- `createNewHeapForRtld`, or `none` if it returns `NULL`. -/
def createNewHeap (p : RankProc) : Option RankProc :=
  match env.place p.space newHeapCall with
  | none => none
  | some addr =>
      if h : ValidRange addr (100 * pageSize) then do
        let new ← HeapProc.createNewHeap env.confine.kernel p.heap p.space addr h
        pure ⟨new.heap, new.space, p.regions ++ new.regions⟩
      else none

end RtldEnv

/-- `runRtld` returns, or jumps on another stack to the entry point of what it has loaded. -/
inductive RtldEnd
  | returned (rc : Int)
  | jumped (newStack : Nat) (ldso : DynObjInfo)
  deriving DecidableEq, Repr

/-- The process that is to be the rank, what is in `lhInfo`, and `addr.bin`. -/
structure RtldProc where
  rank : RankProc
  lhInfo : LowerHalfInfo
  addrBin : Option (List UInt8)

def runRtld (env : RtldEnv) (space : AddrSpace) (addrBin : Option (List UInt8)) :
    Exec (RtldEnd × RtldProc) := do
  let code := env.loader.lhInfo
  let ldname ← Exec.ofOption (getenv space.bytes targetLd env.fuel env.environ)
  let uhpreload ← Exec.ofOption (getenv space.bytes uhPreload env.fuel env.environ)
  let c ← confineAddrSpace env.confine env.loader.rankId space env.brk
  if ldname = 0 ∨ uhpreload = 0 then
    pure (.returned (-1), ⟨⟨.initial, c.space, []⟩, code, addrBin⟩)
  else do
    let name ← Exec.ofOption (ByteMem.readString c.space.bytes env.fuel ldname)
    let (ldso, ld) ← safeLoadLib env.loader name (.start c.space .initial)
    let p : RankProc := ⟨{ Heap.initial with table := ld.table }, ld.space, ld.regions⟩
    if ldso.baseAddr = 0 ∨ ldso.entryPoint = 0 then pure (.returned (-1), ⟨p, code, addrBin⟩)
    else do
      let (newStack, p) ← env.createNewStackForRtld ldso p
      if newStack = 0 then pure (.returned (-1), ⟨p, code, addrBin⟩)
      else
        match env.createNewHeap p with
        | none => pure (.returned (-1), ⟨p, code, addrBin⟩)
        | some p =>
            let (rc, space) := insertTrampoline env.confine.kernel p.space ldso.mmapAddr code.lhMmap
            let p := { p with space := space }
            if rc < 0 then pure (.returned (-1), ⟨p, code, addrBin⟩)
            else
              let (rc, space) := insertTrampoline env.confine.kernel p.space ldso.sbrkAddr
                code.lhSbrk
              let p := { p with space := space }
              if rc < 0 then pure (.returned (-1), ⟨p, code, addrBin⟩)
              else
                let (rc, lhInfo, addrBin) := setupLowerHalfInfo env.setup code addrBin
                if rc < 0 then pure (.returned (-1), ⟨p, lhInfo, addrBin⟩)
                else pure (.jumped newStack ldso, ⟨p, lhInfo, addrBin⟩)

/-! ## Trampolines -/

section Trampolines

variable {k : Kernel} {s : AddrSpace} {fromAddr toAddr : Nat}

theorem mappedSet_insertTrampoline (k : Kernel) (s : AddrSpace) (fromAddr toAddr : Nat) :
    (insertTrampoline k s fromAddr toAddr).2.mappedSet = s.mappedSet := by
  rcases insertTrampoline_cases k s fromAddr toAddr with
    ⟨_, _, hunpatched⟩ | ⟨hvalid, _, hopen, _, hrun⟩
  · exact hunpatched.mapped
  · rw [hrun, hopen, Kernel.closePages, Kernel.mappedSet_mprotect]
    simp [AddrSpace.patch]

/-- The instructions at an address are a jump. -/
def JumpsTo (s : AddrSpace) (fromAddr toAddr : Nat) : Prop :=
  decodeCode 2 (ByteMem.bytes s.bytes fromAddr 12) = some [.movRax toAddr, .jmpRax]

/-- A patch apart from a jump leaves it there. -/
theorem JumpsTo.patched {opened s' : AddrSpace} {fromAddr' toAddr' : Nat}
    (h : JumpsTo s fromAddr toAddr) (hpatched : Patched s opened s' fromAddr' toAddr')
    (hapart : fromAddr + 12 ≤ fromAddr' ∨ fromAddr' + 12 ≤ fromAddr) :
    JumpsTo s' fromAddr toAddr := by
  have hsame : ByteMem.bytes s'.bytes fromAddr 12 = ByteMem.bytes s.bytes fromAddr 12 :=
    ByteMem.bytes_congr fun i hi => hpatched.frame _ (by omega)
  rw [JumpsTo, hsame]
  exact h

end Trampolines

/-! ## addr.bin -/

/-- A write that is not short leaves the structure at the start of the file. -/
theorem SetupCalls.writeLhInfoToFile_ok {calls : SetupCalls} {l : LowerHalfInfo}
    {file : Option (List UInt8)} (h : ¬ (calls.writeLhInfoToFile l file).1 < 0) :
    (calls.writeLhInfoToFile l file).2 = some (CkptRestart.writeLhInfoToFile l file) := by
  unfold SetupCalls.writeLhInfoToFile at h ⊢
  cases hopens : calls.opens with
  | false => simp [hopens] at h
  | true =>
      cases hwritten : calls.written with
      | none => simp [hopens, hwritten] at h
      | some n =>
          by_cases hshort : n < lhInfoSize
          · simp [hopens, hwritten, hshort] at h
          · have hall : (encodeLhInfo l).take n = encodeLhInfo l := by
              apply List.take_of_length_le
              rw [length_encodeLhInfo]
              exact not_lt.1 hshort
            simp [hshort, hall, CkptRestart.writeLhInfoToFile]

theorem setupLowerHalfInfo_ok {calls : SetupCalls} {code : LowerHalfInfo}
    {file : Option (List UInt8)} (h : ¬ (setupLowerHalfInfo calls code file).1 < 0) :
    (setupLowerHalfInfo calls code file).2 = ({ code with lhFsAddr := calls.fs },
      some (CkptRestart.writeLhInfoToFile { code with lhFsAddr := calls.fs } file)) := by
  unfold setupLowerHalfInfo at h ⊢
  by_cases hprctl : calls.archPrctl < 0
  · simp [hprctl] at h
  · simp only [if_neg hprctl] at h ⊢
    by_cases hwrite : (calls.writeLhInfoToFile { code with lhFsAddr := calls.fs } file).1 < 0
    · simp [hwrite] at h
    · rw [if_neg hwrite]
      simp only [SetupCalls.writeLhInfoToFile_ok hwrite]

/-! ## The new stack and the new heap -/

/-- The kernel makes a mapping that it has a place for, or nothing changes. -/
theorem RtldEnv.mmap_cases (env : RtldEnv) (s : AddrSpace) (c : MmapCall) :
    ((env.mmap s c).1.ret = mapFailed ∧ (env.mmap s c).2 = s) ∨
      ∃ addr, env.place s c = some addr ∧ ∃ hvalid : ValidRange addr c.length,
        env.mmap s c = (⟨addr, .EINVAL, none⟩, s.mapFixed addr c.length c.prot hvalid) := by
  unfold RtldEnv.mmap
  cases hplace : env.place s c with
  | none => exact .inl ⟨rfl, rfl⟩
  | some addr =>
      by_cases hvalid : ValidRange addr c.length
      · exact .inr ⟨addr, rfl, hvalid, dif_pos hvalid⟩
      · left
        simp [hvalid]

/-- What `deepCopyStack` returns is null, or the place of `argc` above the new end. -/
theorem deepCopyStack_result {fuel environ newStack origStack len newStackEnd origStackEnd q : Nat}
    {info : Option DynObjInfo} {m m' : ByteMem}
    (h : deepCopyStack fuel environ newStack origStack len newStackEnd origStackEnd info m =
      .ok (q, m')) : q = 0 ∨ q = getArgcAddr newStackEnd := by
  unfold deepCopyStack at h
  rcases Exec.bind_eq_ok_iff.1 h with ⟨target, _, h⟩
  rcases Exec.bind_eq_ok_iff.1 h with ⟨preload, _, h⟩
  split at h
  · cases h
  cases info with
  | none =>
      cases h
      exact .inl rfl
  | some info =>
      dsimp only at h
      split at h
      · cases h
        exact .inl rfl
      · -- the loops change the memory only
        unfold patchStack at h
        rcases Exec.bind_eq_ok_iff.1 h with ⟨_, _, h⟩
        rcases Exec.bind_eq_ok_iff.1 h with ⟨_, _, h⟩
        rcases Exec.bind_eq_ok_iff.1 h with ⟨_, _, h⟩
        rcases Exec.bind_eq_ok_iff.1 h with ⟨_, _, h⟩
        rcases Exec.bind_eq_ok_iff.1 h with ⟨_, _, h⟩
        rcases Exec.bind_eq_ok_iff.1 h with ⟨_, _, h⟩
        cases h
        exact .inr rfl

/-- The stack pointer is as far in the new region as `startStack` in the original one. -/
theorem copyStackForRtld_result {fuel environ newStack q : Nat} {stack : Area} {startStack : Int}
    {info : DynObjInfo} {m m' : ByteMem}
    (h : copyStackForRtld fuel environ newStack stack startStack info m = .ok (q, m')) (hq : q ≠ 0)
    (hlo : (stack.addr : Int) + 8 ≤ startStack) (hhi : startStack < stack.addr + stack.size)
    (hold : stack.addr + stack.size < wordSize) (hnew : newStack + stack.size < wordSize) :
    newStack ≤ q ∧ q < newStack + stack.size := by
  unfold copyStackForRtld at h
  have hresult := (deepCopyStack_result h).resolve_left hq
  rw [hresult, getArgcAddr]
  unfold toUnsigned wrap wordSize at *
  omega

/-- The kernel has made a mapping where it had a place for it, and it has been recorded. -/
structure Gets (env : RtldEnv) (c : MmapCall) (addr : Nat) (p q : RankProc) : Prop where
  place : env.place p.space c = some addr
  valid : ValidRange addr c.length
  mapped : p.space.mappedSet ⊆ q.space.mappedSet
  table : q.heap.table = (mmapWrapper p.heap.table c ⟨addr, .EINVAL, none⟩).table
  regions : q.regions = p.regions ++ [⟨addr, c.length⟩]

theorem RtldEnv.createNewStackForRtld_ok {env : RtldEnv} {info : DynObjInfo} {p p' : RankProc}
    {stack : Area} {q : Nat} (hstack : env.confine.getStackRegion p.space = stack)
    (hlo : (stack.addr : Int) + 8 ≤ readStartStack env.stat)
    (hhi : readStartStack env.stat < stack.addr + stack.size)
    (hold : stack.addr + stack.size < wordSize)
    (h : env.createNewStackForRtld info p = .ok (q, p')) (hq : q ≠ 0) :
    ∃ addr, Gets env (newStackCall stack) addr p p' ∧ addr ≤ q ∧ q < addr + stack.size := by
  simp only [RtldEnv.createNewStackForRtld, CkptRestart.createNewStackForRtld, hstack] at h
  rcases env.mmap_cases p.space (newStackCall stack) with ⟨hfailed, _⟩ | ⟨addr, hplace, hvalid, hmmap⟩
  · have hret := mmapWrapper_ret_of_failed p.heap.table (newStackCall stack) hfailed
    rw [if_pos hret] at h
    cases h
    exact absurd rfl hq
  · have hret : (mmapWrapper p.heap.table (newStackCall stack) ⟨addr, .EINVAL, none⟩).ret = addr := by
      simp [mmapWrapper, newStackCall, hvalid.ne_mapFailed]
    have hmap : mappedBy (newStackCall stack) ⟨addr, .EINVAL, none⟩ =
        some ⟨addr, (newStackCall stack).length⟩ := by
      simp [mappedBy, newStackCall, hvalid.ne_mapFailed]
    simp only [hmmap, hret, hmap, if_neg hvalid.ne_mapFailed] at h
    rcases Exec.bind_eq_ok_iff.1 h with ⟨⟨newStackEnd, bytes⟩, hcopy, hrest⟩
    cases hrest
    have hroom : addr + stack.size < wordSize :=
      lt_of_le_of_lt (Nat.add_le_add_left (le_pagesUp _) addr) hvalid.room
    -- the copy changes bytes, so the mapping is the only one
    refine ⟨addr, ⟨hplace, hvalid, fun x hx => ?_, rfl, rfl⟩,
      copyStackForRtld_result hcopy hq hlo hhi hold hroom⟩
    exact (AddrSpace.mem_mappedSet_mapFixed hvalid).2 (.inr hx)

/-- The new heap is in the table as the call has asked for it. -/
theorem HeapProc.table_createNewHeap {k : Kernel} {h : Heap} {space : AddrSpace} {addr : Nat}
    {hvalid : ValidRange addr (100 * pageSize)} {p : HeapProc}
    (hp : createNewHeap k h space addr hvalid = some p) :
    p.heap.table = (mmapWrapper h.table newHeapCall ⟨addr, .EINVAL, none⟩).table := by
  have hret : (mmapWrapper h.table newHeapCall ⟨addr, .EINVAL, none⟩).ret ≠ mapFailed := by
    simp [mmapWrapper, newHeapCall, hvalid.ne_mapFailed]
  simp only [createNewHeap, createNewHeapForRtld, if_neg hret, Option.bind_eq_bind,
    Option.bind_some, Option.pure_def, Option.some.injEq] at hp
  rw [← hp]
  rfl

theorem RtldEnv.createNewHeap_ok {env : RtldEnv} {p q : RankProc}
    (h : env.createNewHeap p = some q) :
    ∃ addr, Gets env newHeapCall addr p q ∧ q.heap.curbrk = addr + pageSize ∧
      q.heap.endOfHeap = addr + 100 * pageSize := by
  unfold createNewHeap at h
  cases hplace : env.place p.space newHeapCall with
  | none => simp [hplace] at h
  | some addr =>
      simp only [hplace] at h
      split at h
      · next hvalid =>
          obtain ⟨new, hnew, hq⟩ := Option.bind_eq_some_iff.1 h
          have htable := HeapProc.table_createNewHeap hnew
          -- the first page loses its permissions, but stays mapped
          obtain ⟨table, heq⟩ := HeapProc.createNewHeap_eq env.confine.kernel p.heap p.space hvalid
          obtain rfl := Option.some.inj (heq.symm.trans hnew)
          obtain rfl := Option.some.inj hq
          refine ⟨addr, ⟨hplace, hvalid, fun x hx => ?_, htable, rfl⟩, rfl, rfl⟩
          rw [Kernel.mappedSet_mprotect]
          exact (AddrSpace.mem_mappedSet_mapFixed hvalid).2 (.inr hx)
      · cases h

/-! ## Where ld.so starts -/

/-- The file that `TARGET_LD` names, if there is one. -/
def RtldEnv.ldFile (env : RtldEnv) (s : AddrSpace) : Exec (Option (List UInt8)) := do
  let ldname ← Exec.ofOption (getenv s.bytes targetLd env.fuel env.environ)
  let c ← confineAddrSpace env.confine env.loader.rankId s env.brk
  let name ← Exec.ofOption (ByteMem.readString c.space.bytes env.fuel ldname)
  pure (env.loader.files (env.loader.elfInterpreter name))

/-- A process of rank `r` when the loader starts in it.  What the kernel places, it places between the
break and the stack. -/
structure RtldEnv.Starts (env : RtldEnv) (r : Nat) (s : AddrSpace) (vvar vdso stack : Seg Mapping) :
    Prop where
  rankId : env.loader.rankId = r
  lists : ∀ s, ∃ l, env.confine.kernel.procMaps s = some l ∧ Lists s l
  layout : RankLayout s env.brk env.confine.sp r vvar vdso stack
  link : checkLibrary env.loader.link libcName = none
  file : ∀ content, env.ldFile s = .ok (some content) → LoadableInHalf r content
  place : ∀ s c addr, env.place s c = some addr →
    s.maps.Free addr (addr + pagesUp c.length) ∧ env.brk ≤ addr ∧ addr < stack.lo
  startStack_lo : (stack.lo : Int) + 8 ≤ readStartStack env.stat
  startStack_hi : readStartStack env.stat < stack.hi
  words : env.loader.lhInfo.lhMmap < wordSize ∧ env.loader.lhInfo.lhSbrk < wordSize

/-- The place of a rank whose process starts so. -/
def RankLayout.site {s : AddrSpace} {brk sp r : Nat} {vvar vdso stack : Seg Mapping}
    (h : RankLayout s brk sp r vvar vdso stack) : Site where
  rank := r
  brk := brk
  stack := stack.lo
  brk_le := Nat.le_of_lt h.brk_lt
  le_stack := by
    have hvvar := s.maps.nonempty vvar h.namedVvar.mem
    have hvdso := s.maps.nonempty vdso h.namedVdso.mem
    have hwindow := h.window_lt
    have hvvarLe := h.vvar_le
    have hvdsoLt := h.vdso_lt
    omega
  stack_lt := by
    have hstack := s.maps.nonempty stack h.namedStack.mem
    have hbounded := (s.bounded stack h.namedStack.mem).2
    omega

/-- The name in `TARGET_LD`, and the loader when it has loaded the file. -/
def RtldEnv.loaded (env : RtldEnv) (s : AddrSpace) : Exec (List UInt8 × Loader) := do
  let ldname ← Exec.ofOption (getenv s.bytes targetLd env.fuel env.environ)
  let c ← confineAddrSpace env.confine env.loader.rankId s env.brk
  let name ← Exec.ofOption (ByteMem.readString c.space.bytes env.fuel ldname)
  let (_, ld) ← safeLoadLib env.loader name (.start c.space .initial)
  pure (name, ld)

/-- The function of ld.so that has this symbol has been mapped to `x`. -/
def RtldEnv.FunctionAt (env : RtldEnv) (s : AddrSpace) (content symbol : List UInt8) (x : Nat) : Prop :=
  ∃ name ld, ∃ value : Nat, env.loaded s = .ok (name, ld) ∧ ld.Puts content value x ∧
    getSymbolOffset env.loader.files env.loader.junk name symbol = .ok (value : Int)

/-- What ld.so finds when it gets the processor. -/
structure HandsOver (env : RtldEnv) (site : Site) (s : AddrSpace) (addrBin : Option (List UInt8))
    (newStack : Nat) (ldso : DynObjInfo) (p : RtldProc) : Prop where
  rank : RankInv site p.rank.heap.curbrk p.rank
  stack : ∃ t ∈ p.rank.regions, newStack ∈ t.range
  heap : p.rank.heap.endOfHeap = p.rank.heap.curbrk + 99 * pageSize
  sbrk : JumpsTo p.rank.space ldso.sbrkAddr env.loader.lhInfo.lhSbrk
  /-- The second trampoline may be over the first. -/
  mmap : ldso.mmapAddr + 12 ≤ ldso.sbrkAddr ∨ ldso.sbrkAddr + 12 ≤ ldso.mmapAddr →
    JumpsTo p.rank.space ldso.mmapAddr env.loader.lhInfo.lhMmap
  /-- With a first segment that keeps the base, the trampolines are over the functions. -/
  functions : ∀ content, env.ldFile s = .ok (some content) → KeepsBase content →
    (∀ x, env.FunctionAt s content sbrkSymbolName x → ldso.sbrkAddr = x) ∧
      ∀ x, env.FunctionAt s content mmapSymbolName x → ldso.mmapAddr = x
  lhInfo : p.lhInfo = { env.loader.lhInfo with lhFsAddr := env.setup.fs }
  addrBin : p.addrBin = some (writeLhInfoToFile p.lhInfo addrBin)

/-- A process on its way to the rank. -/
structure Launching (site : Site) (p : RankProc) : Prop where
  closed : Closed site p.space
  records : Records p.heap.table p.regions
  regions : InWindow site p
  valid : ∀ t ∈ p.regions, ValidRange t.addr t.len

/-- A mapping that the kernel has found a place for. -/
theorem Launching.gets {env : RtldEnv} {site : Site} {p q : RankProc} {c : MmapCall} {addr : Nat}
    (h : Launching site p) (hgets : Gets env c addr p q) (hoffset : c.offset &&& mmapOffMask = 0)
    (hfree : p.space.maps.Free addr (addr + pagesUp c.length)) (hlo : site.brk ≤ addr)
    (hhi : addr < site.stack) : Launching site q := by
  have hmap : mappedBy c ⟨addr, .EINVAL, none⟩ = some ⟨addr, c.length⟩ := by
    simp [mappedBy, hoffset, hgets.valid.ne_mapFailed]
  have hrecords := h.records.mmapWrapper c ⟨addr, .EINVAL, none⟩
  rw [hmap, ← hgets.table, Option.toList_some, ← hgets.regions] at hrecords
  refine ⟨h.closed.mono hgets.mapped, hrecords, ?_, ?_⟩
  · rw [inWindow_append h.regions hgets.regions, List.forall_mem_singleton]
    exact (h.closed.free_subset_iff hgets.valid hfree).2 ⟨hlo, hhi⟩
  · rw [hgets.regions]
    exact valid_append h.valid hgets.valid

/-- When its last mapping is the new heap, it is the rank. -/
theorem Launching.rankInv {site : Site} {p : RankProc} {addr : Nat} (h : Launching site p)
    (hmem : ⟨addr, 100 * pageSize⟩ ∈ p.regions) (hvalid : ValidRange addr (100 * pageSize))
    (hbrk : p.heap.curbrk = addr + pageSize) (hend : p.heap.endOfHeap = addr + 100 * pageSize) :
    RankInv site p.heap.curbrk p := by
  have hpages := h.regions _ hmem
  have hsize : pagesUp (100 * pageSize) = 100 * pageSize :=
    pagesUp_of_aligned (Nat.dvd_mul_left _ _)
  rw [MmapInfo.pages, window, hsize, Set.Ico_subset_Ico_iff (by unfold pageSize; omega)] at hpages
  refine ⟨h.closed, h.regions, h.records, ?_, le_rfl, ?_, ?_, ?_⟩ <;> simp only [hbrk, hend]
  · exact le_trans hpages.1 (Nat.le_add_right _ _)
  · unfold pageSize
    omega
  · exact Nat.dvd_add hvalid.aligned (Nat.dvd_mul_left _ _)
  · exact hpages.2

section Stages

variable {env : RtldEnv} {r : Nat} {s : AddrSpace} {vvar vdso stack : Seg Mapping}

/-- The steps of a loader that jumps, all of which have succeeded. -/
structure Jumps (env : RtldEnv) (s : AddrSpace) (addrBin : Option (List UInt8)) (newStack : Nat)
    (ldso : DynObjInfo) (q : RtldProc) where
  ldname : Nat
  c : Confined
  name : List UInt8
  ld : Loader
  p₁ : RankProc
  p₂ : RankProc
  getenv : Exec.ofOption (getenv s.bytes targetLd env.fuel env.environ) = .ok ldname
  confine : confineAddrSpace env.confine env.loader.rankId s env.brk = .ok c
  readName : Exec.ofOption (ByteMem.readString c.space.bytes env.fuel ldname) = .ok name
  load : safeLoadLib env.loader name (.start c.space .initial) = .ok (ldso, ld)
  base_ne : ldso.baseAddr ≠ 0
  newStack_eq : env.createNewStackForRtld ldso
    ⟨{ Heap.initial with table := ld.table }, ld.space, ld.regions⟩ = .ok (newStack, p₁)
  newStack_ne : newStack ≠ 0
  newHeap : env.createNewHeap p₁ = some p₂
  mmap : ¬ (insertTrampoline env.confine.kernel p₂.space ldso.mmapAddr
    env.loader.lhInfo.lhMmap).1 < 0
  sbrk : ¬ (insertTrampoline env.confine.kernel (insertTrampoline env.confine.kernel p₂.space
    ldso.mmapAddr env.loader.lhInfo.lhMmap).2 ldso.sbrkAddr env.loader.lhInfo.lhSbrk).1 < 0
  setup : ¬ (setupLowerHalfInfo env.setup env.loader.lhInfo addrBin).1 < 0
  final : q = ⟨{ p₂ with
      space := (insertTrampoline env.confine.kernel (insertTrampoline env.confine.kernel p₂.space
        ldso.mmapAddr env.loader.lhInfo.lhMmap).2 ldso.sbrkAddr env.loader.lhInfo.lhSbrk).2 },
    (setupLowerHalfInfo env.setup env.loader.lhInfo addrBin).2.1,
    (setupLowerHalfInfo env.setup env.loader.lhInfo addrBin).2.2⟩

theorem runRtld_jumped {addrBin : Option (List UInt8)} {newStack : Nat} {ldso : DynObjInfo}
    {q : RtldProc} (h : runRtld env s addrBin = .ok (.jumped newStack ldso, q)) :
    Nonempty (Jumps env s addrBin newStack ldso q) := by
  -- call after call; every branch but the last one returns
  unfold runRtld at h
  obtain ⟨ldname, hldname, h⟩ := Exec.bind_eq_ok_iff.1 h
  obtain ⟨uhpreload, _, h⟩ := Exec.bind_eq_ok_iff.1 h
  obtain ⟨c, hconfine, h⟩ := Exec.bind_eq_ok_iff.1 h
  split at h
  · cases h
  obtain ⟨name, hname, h⟩ := Exec.bind_eq_ok_iff.1 h
  obtain ⟨⟨ldso', ld⟩, hload, h⟩ := Exec.bind_eq_ok_iff.1 h
  dsimp only at h
  split at h
  · cases h
  next hbase =>
  obtain ⟨⟨newStack', p₁⟩, hstack, h⟩ := Exec.bind_eq_ok_iff.1 h
  dsimp only at h
  split at h
  · cases h
  next hnull =>
  split at h
  · cases h
  next p₂ hheap =>
  split at h
  · cases h
  next hmmap =>
  split at h
  · cases h
  next hsbrk =>
  split at h
  · cases h
  next hsetup =>
  cases h
  exact ⟨⟨ldname, c, name, ld, p₁, p₂, hldname, hconfine, hname, hload, fun h => hbase (.inl h), hstack,
    hnull, hheap, hmmap, hsbrk, hsetup, rfl⟩⟩

/-- The loader goes into the last quarter of the window. -/
theorem RankLayout.ldSoRoom_subset {brk sp : Nat} (h : RankLayout s brk sp r vvar vdso stack) :
    ldSoRoom r ⊆ window r := by
  have hword := (s.bounded vvar h.namedVvar.mem).1
  have hwindow := h.window_lt
  refine Set.Ico_subset_Ico ?_ ?_ <;>
    simp only [loadBase, ldSoWindow] <;>
    unfold addrSpaceSize wrap toUnsigned wordSize at * <;>
    omega

/-- After the bookings only the window is free. -/
theorem RtldEnv.Starts.confined (h : env.Starts r s vvar vdso stack) {c : Confined}
    (hrun : confineAddrSpace env.confine r s env.brk = .ok c) :
    Closed h.layout.site c.space ∧ Named c.space stackRegionName stack := by
  have hbooked := (confineAddrSpace_booked h.lists h.layout).of_eq_ok hrun
  have hconfines := h.layout.confines hbooked
  have hnamed : Named c.space stackRegionName stack :=
    hbooked.named (stackRegionName, stack) (by simp [kernelRegions])
  refine ⟨⟨hconfines.closed, ?_⟩, hnamed⟩
  exact hnamed.mem_mappedSet ⟨le_rfl, c.space.maps.nonempty stack hnamed.mem⟩

/-- The loader has put ld.so into the window and left the stack alone. -/
theorem RtldEnv.Starts.loaded (h : env.Starts r s vvar vdso stack) {c : Confined}
    (hclosed : Closed h.layout.site c.space) (hnamed : Named c.space stackRegionName stack)
    {name content : List UInt8} (hfile : env.loader.files (env.loader.elfInterpreter name) = some content)
    (hloadable : LoadableInHalf r content) {ldso : DynObjInfo} {ld : Loader}
    (hrun : safeLoadLib env.loader name (.start c.space .initial) = .ok (ldso, ld)) :
    Launching h.layout.site ⟨{ Heap.initial with table := ld.table }, ld.space, ld.regions⟩ ∧
      Named ld.space stackRegionName stack := by
  have hrec : Recorded (ldSoRoom r) c.space ld.space ld.table ld.regions := by
    rw [← h.rankId]
    exact safeLoadLib_recorded h.link (h.rankId.symm ▸ hloadable) hfile hrun
  have hwindow := hrec.mono h.layout.ldSoRoom_subset
  refine ⟨⟨hclosed.of_lookup fun x hx => (hwindow.outside x hx).1, hrec.records, hwindow.inside,
    hwindow.valid⟩, ?_⟩
  refine hwindow.named _ (by decide) stack (fun x hx hwin => ?_) hnamed
  -- the stack is behind the window
  have hstack := h.layout.site.le_stack
  have hlo : stack.lo ≤ x := hx.1
  rw [window, Set.mem_Ico] at hwin
  exact absurd hwin.2 (not_lt.2 (hstack.trans hlo))

/-- The line of the stack gives its bounds. -/
theorem RtldEnv.Starts.stackRegion (h : env.Starts r s vvar vdso stack) {s' : AddrSpace}
    (hnamed : Named s' stackRegionName stack) :
    (env.confine.getStackRegion s').addr = stack.lo ∧
      (env.confine.getStackRegion s').size = stack.hi - stack.lo := by
  obtain ⟨l, hl, hlists⟩ := h.lists s'
  obtain ⟨a, hfind, haddr, hend⟩ := hnamed.find hlists
    (p := fun a => strstr a.name stackRegionName && decide (a.endAddr ≥ env.confine.sp))
    (fun a ha => (Bool.and_eq_true_iff.1 ha).1)
    (fun a ha hend => by simpa [ha, hend] using h.layout.sp_le)
  have hsize := l.sized a (List.mem_of_find?_eq_some hfind)
  rw [haddr, hend] at hsize
  simpa [ConfineEnv.getStackRegion, ConfineEnv.firstArea, hl, hfind] using ⟨haddr, hsize⟩

/-- The two trampolines. -/
theorem jumpsTo_trampolines {k : Kernel} {s : AddrSpace} {mmapAddr sbrkAddr lhMmap lhSbrk : Nat}
    (hwords : lhMmap < wordSize ∧ lhSbrk < wordSize)
    (hmmap : ¬ (insertTrampoline k s mmapAddr lhMmap).1 < 0)
    (hsbrk : ¬ (insertTrampoline k (insertTrampoline k s mmapAddr lhMmap).2 sbrkAddr lhSbrk).1 < 0) :
    JumpsTo (insertTrampoline k (insertTrampoline k s mmapAddr lhMmap).2 sbrkAddr lhSbrk).2 sbrkAddr
        lhSbrk ∧
      (mmapAddr + 12 ≤ sbrkAddr ∨ sbrkAddr + 12 ≤ mmapAddr →
        JumpsTo (insertTrampoline k (insertTrampoline k s mmapAddr lhMmap).2 sbrkAddr lhSbrk).2
          mmapAddr lhMmap) := by
  have hfirst := insertTrampoline_patched hwords.1 hmmap
  have hsecond := insertTrampoline_patched hwords.2 hsbrk
  exact ⟨hsecond.code, fun hapart => JumpsTo.patched hfirst.code hsecond hapart⟩

/-- The stack and the heap are in the window as well. -/
theorem RtldEnv.Starts.launched (h : env.Starts r s vvar vdso stack) {ldso : DynObjInfo}
    {p p₁ p₂ : RankProc} (hp : Launching h.layout.site p) (hnamed : Named p.space stackRegionName stack)
    {newStack : Nat} (hstack : env.createNewStackForRtld ldso p = .ok (newStack, p₁))
    (hne : newStack ≠ 0) (hheap : env.createNewHeap p₁ = some p₂) :
    RankInv h.layout.site p₂.heap.curbrk p₂ ∧ (∃ t ∈ p₂.regions, newStack ∈ t.range) ∧
      p₂.heap.endOfHeap = p₂.heap.curbrk + 99 * pageSize ∧
      ∀ t ∈ p₂.regions, ValidRange t.addr t.len := by
  obtain ⟨haddr, hsize⟩ := h.stackRegion hnamed
  have hstackNe := s.maps.nonempty stack h.layout.namedStack.mem
  have hstackHi := (s.bounded stack h.layout.namedStack.mem).2
  have hstackEnd : (env.confine.getStackRegion p.space).addr +
      (env.confine.getStackRegion p.space).size = stack.hi := by
    rw [haddr, hsize]
    exact Nat.add_sub_cancel' hstackNe.le
  obtain ⟨addr, hgets, hlo, hhi⟩ := RtldEnv.createNewStackForRtld_ok rfl
    (by rw [haddr]; exact h.startStack_lo)
    (by rw [← Int.natCast_add, hstackEnd]; exact h.startStack_hi)
    (by rw [hstackEnd]; exact hstackHi) hstack hne
  -- both mappings are at places of the kernel's choice, the stack first
  obtain ⟨hfree, hbrk, hbelow⟩ := h.place _ _ _ hgets.place
  have hp₁ := hp.gets hgets (Nat.zero_and _) hfree hbrk hbelow
  obtain ⟨heapAddr, hgetsHeap, hcurbrk, hend⟩ := RtldEnv.createNewHeap_ok hheap
  obtain ⟨hfreeHeap, hbrkHeap, hbelowHeap⟩ := h.place _ _ _ hgetsHeap.place
  have hp₂ := hp₁.gets hgetsHeap (Nat.zero_and _) hfreeHeap hbrkHeap hbelowHeap
  have hregions := hgetsHeap.regions
  refine ⟨hp₂.rankInv ?_ hgetsHeap.valid hcurbrk hend,
    ⟨⟨addr, (env.confine.getStackRegion p.space).size⟩, ?_, MmapInfo.mem_range.2 ⟨hlo, hhi⟩⟩, ?_,
    hp₂.valid⟩
  · rw [hregions]
    exact List.mem_append_right _ (List.mem_singleton.2 rfl)
  · rw [hregions, hgets.regions]
    exact List.mem_append_left _ (List.mem_append_right _ (List.mem_singleton.2 rfl))
  · rw [hcurbrk, hend]
    unfold pageSize
    omega

/-- The file of a loader that jumps. -/
theorem Jumps.file {addrBin : Option (List UInt8)} {newStack : Nat} {ldso : DynObjInfo} {q : RtldProc}
    (hj : Jumps env s addrBin newStack ldso q) :
    ∃ content, env.loader.files (env.loader.elfInterpreter hj.name) = some content ∧
      env.ldFile s = .ok (some content) := by
  have hload := hj.load
  cases hfile : env.loader.files (env.loader.elfInterpreter hj.name) with
  | none => simp [safeLoadLib, hfile] at hload
  | some content =>
      refine ⟨content, rfl, ?_⟩
      rw [RtldEnv.ldFile, hj.getenv, Exec.ok_bind, hj.confine, Exec.ok_bind, hj.readName, Exec.ok_bind,
        hfile]
      rfl

/-- It has put its trampolines over the functions of the file. -/
theorem Jumps.functions {addrBin : Option (List UInt8)} {newStack : Nat} {ldso : DynObjInfo}
    {q : RtldProc} (hj : Jumps env s addrBin newStack ldso q) (h : env.Starts r s vvar vdso stack)
    {content : List UInt8} (hfile : env.ldFile s = .ok (some content)) (hkeeps : KeepsBase content)
    {symbol : List UInt8} {x : Nat} (hat : env.FunctionAt s content symbol x) :
    (symbol = mmapSymbolName → ldso.mmapAddr = x) ∧ (symbol = sbrkSymbolName → ldso.sbrkAddr = x) := by
  obtain ⟨content', hname, hfile'⟩ := hj.file
  obtain rfl : content = content' := by simpa using hfile.symm.trans hfile'
  obtain ⟨name, ld, value, hloaded, hputs, hvalue⟩ := hat
  obtain ⟨rfl, rfl⟩ : hj.name = name ∧ hj.ld = ld := by
    rw [RtldEnv.loaded, hj.getenv, Exec.ok_bind, hj.confine, Exec.ok_bind, hj.readName, Exec.ok_bind,
      hj.load, Exec.ok_bind] at hloaded
    simpa using hloaded
  -- a null address would have made the first trampoline fail
  have hset : ¬ (ldso.mmapAddr = 0 ∧ ldso.sbrkAddr = 0) := by
    rintro ⟨hzero, _⟩
    apply hj.mmap
    rw [insertTrampoline, if_pos (.inl hzero)]
    exact (by decide : (-1 : Int) < 0)
  have hl : Loadable env.loader.rankId content := by
    rw [h.rankId]
    exact (h.file content hfile).loadable
  have hplaces := safeLoadLib_functions h.link hl hkeeps hname hj.load hj.base_ne hset hputs
  refine ⟨?_, ?_⟩
  · rintro rfl
    exact hplaces.1 hvalue
  · rintro rfl
    exact hplaces.2 hvalue

/-- If the loader jumps, the process is a rank in its window, on a stack and with a heap of its own. -/
theorem RtldEnv.Starts.jumped (h : env.Starts r s vvar vdso stack) {addrBin : Option (List UInt8)}
    {newStack : Nat} {ldso : DynObjInfo} {p : RtldProc}
    (hrun : runRtld env s addrBin = .ok (.jumped newStack ldso, p)) :
    RankInv h.layout.site p.rank.heap.curbrk p.rank ∧ (∃ t ∈ p.rank.regions, newStack ∈ t.range) ∧
      p.rank.heap.endOfHeap = p.rank.heap.curbrk + 99 * pageSize ∧
      ∀ t ∈ p.rank.regions, ValidRange t.addr t.len := by
  obtain ⟨hj⟩ := runRtld_jumped hrun
  obtain ⟨content, hname, hfile⟩ := hj.file
  have hloadable := h.file content hfile
  -- the bookings, ld.so, and then the stack and the heap
  have hconfine := hj.confine
  rw [h.rankId] at hconfine
  obtain ⟨hclosed, hnamed⟩ := h.confined hconfine
  obtain ⟨hlaunching, hnamed⟩ := h.loaded hclosed hnamed hname hloadable hj.load
  obtain ⟨hrank, hstack, hheap, hvalid⟩ :=
    h.launched hlaunching hnamed hj.newStack_eq hj.newStack_ne hj.newHeap
  rw [hj.final]
  refine ⟨hrank.of_mappedSet ?_ hrank.regions hrank.records hrank.floor hrank.le_end
    hrank.end_aligned hrank.end_le, hstack, hheap, hvalid⟩
  -- the trampolines map nothing
  simp only [mappedSet_insertTrampoline, subset_refl]

/-- Whatever the kernel refuses, if the loader jumps, ld.so starts as a rank in its window, on a stack
and with a heap of its own, and its `mmap` and `sbrk` are the wrappers if its first segment keeps the
base. -/
theorem runRtld_handsOver (h : env.Starts r s vvar vdso stack) {addrBin : Option (List UInt8)}
    {newStack : Nat} {ldso : DynObjInfo} {p : RtldProc}
    (hrun : runRtld env s addrBin = .ok (.jumped newStack ldso, p)) :
    HandsOver env h.layout.site s addrBin newStack ldso p := by
  obtain ⟨hrank, hstack, hheap, -⟩ := h.jumped hrun
  obtain ⟨hj⟩ := runRtld_jumped hrun
  have hjumps := jumpsTo_trampolines h.words hj.mmap hj.sbrk
  have hsetup := setupLowerHalfInfo_ok hj.setup
  have hspace := congrArg (fun q => q.rank.space) hj.final
  dsimp only at hspace
  refine ⟨hrank, hstack, hheap, ?_, ?_, fun content hfile hkeeps => ⟨fun x hx => ?_, fun x hx => ?_⟩,
    ?_, ?_⟩
  · rw [hspace]
    exact hjumps.1
  · rw [hspace]
    exact hjumps.2
  · exact (hj.functions h hfile hkeeps hx).2 rfl
  · exact (hj.functions h hfile hkeeps hx).1 rfl
  · rw [hj.final, hsetup]
  · rw [hj.final, hsetup]

end Stages

/-! ## Processes of two ranks -/

def launchStart : Nat := 0x7fff10020100

/-- `kernel-loader app`, with the two variables. -/
def launchStrings : List (List UInt8) :=
  [cstr ['k'], cstr ['a'], targetLd ++ [chr '='] ++ smallLibName, uhPreload ++ cstr ['=', 'w']]

/-- From `argc` on; the pointers are null or say how far the string is behind it. -/
def launchBytes : ByteMem := fun x =>
  (putWord 8 2 ++ [0x48, 0x4a, 0, 0x4c, 0x5a, 0].flatMap (fun d =>
      putWord 8 (if d = 0 then 0 else launchStart + d)) ++ putWord 8 0 ++ putWord 8 0 ++
    launchStrings.flatMap (· ++ [0])).getD (x - launchStart) 0

def launchSpace : AddrSpace := { rankSpace with bytes := launchBytes }

/-- `/proc/self/stat` of the process. -/
def launchStat : List UInt8 := (plainLine (cstr ['k']) launchStart (by decide) (by decide)).text

/-- The kernel makes its mappings at one of two places in the window. -/
def launchEnv (rank : Nat) : RtldEnv where
  confine := rankEnv
  loader := { smallEnv (fun _ => .plain) (smallLd 0) with rankId := rank }
  brk := 0x2000000
  environ := launchStart + 32
  fuel := 32
  place := fun s c => [addrSpaceSize * (rank + 1) + 0x40000000,
      addrSpaceSize * (rank + 1) + 0x50000000].find? fun addr =>
    decide (s.maps.Free addr (addr + pagesUp c.length))
  stat := some launchStat
  setup := ⟨0, 7, true, some lhInfoSize⟩

theorem rankLayout_launchSpace {rank : Nat} (hrank : rank ∈ [0, 1]) :
    RankLayout launchSpace 0x2000000 rankEnv.sp rank rankSegs.1 rankSegs.2.1 rankSegs.2.2 :=
  { rankLayout_rankSpace with
    namedVvar := rankLayout_rankSpace.namedVvar.of_maps rfl
    namedVdso := rankLayout_rankSpace.namedVdso.of_maps rfl
    namedStack := rankLayout_rankSpace.namedStack.of_maps rfl
    brk_lt := (by decide : ∀ r ∈ [0, 1], 0x2000000 < addrSpaceSize * (r + 1)) rank hrank
    window_lt := (by decide : ∀ r ∈ [0, 1], addrSpaceSize * (r + 2) < rankSegs.1.lo) rank hrank }

/-- The file is found under its name in the environment. -/
def fileIs (content : List UInt8) : Exec (Option (List UInt8)) → Bool
  | .ok (some found) => decide (found = content)
  | _ => false

theorem file_of_fileIs {content : List UInt8} {found : Exec (Option (List UInt8))}
    (h : fileIs content found = true) : found = .ok (some content) := by
  unfold fileIs at h
  split at h
  · rw [of_decide_eq_true h]
  · cases h

theorem ldFile_launchEnv {rank : Nat} (hrank : rank ∈ [0, 1]) :
    (launchEnv rank).ldFile launchSpace = .ok (some (smallLd 0)) :=
  file_of_fileIs ((by decide +kernel : ∀ r ∈ [0, 1],
    fileIs (smallLd 0) ((launchEnv r).ldFile launchSpace) = true) rank hrank)

theorem starts_launchEnv {rank : Nat} (hrank : rank ∈ [0, 1]) :
    (launchEnv rank).Starts rank launchSpace rankSegs.1 rankSegs.2.1 rankSegs.2.2 where
  rankId := rfl
  lists := Kernel.plain_lists
  layout := rankLayout_launchSpace hrank
  link := (by decide : checkLibrary (some smallLibName) libcName = none)
  file := by
    intro content hfile
    obtain rfl : smallLd 0 = content := by simpa using (ldFile_launchEnv hrank).symm.trans hfile
    refine ⟨{ @loadable_smallLd 0 (by decide) with
      window := (by decide : ∀ r ∈ [0, 1], loadBase (r : Nat) + ldSoWindow ≤ 2 ^ 63) rank hrank }, ?_⟩
    rw [loadSegments_smallLd 0 (by decide)]
    decide
  place := by
    intro s c addr hplace
    have hfree := List.find?_some hplace
    have hmem := List.mem_of_find?_eq_some hplace
    refine ⟨of_decide_eq_true hfree, ?_⟩
    exact (by decide : ∀ r ∈ [0, 1], ∀ addr ∈ [addrSpaceSize * (r + 1) + 0x40000000,
      addrSpaceSize * (r + 1) + 0x50000000], 0x2000000 ≤ addr ∧ addr < rankSegs.2.2.lo) rank hrank
        addr hmem
  startStack_lo := (by decide +kernel :
    (rankSegs.2.2.lo : Int) + 8 ≤ readStartStack (some launchStat))
  startStack_hi := (by decide +kernel : readStartStack (some launchStat) < rankSegs.2.2.hi)
  words := (by decide : 0x2000 < wordSize ∧ 0x1000 < wordSize)

/-- The loader has jumped, and this is true of the rank. -/
def jumpsWith (check : RankProc → Bool) : Exec (RtldEnd × RtldProc) → Bool
  | .ok (.jumped _ _, p) => check p.rank
  | _ => false

theorem exists_of_jumpsWith {check : RankProc → Bool} {run : Exec (RtldEnd × RtldProc)}
    (h : jumpsWith check run = true) :
    ∃ newStack ldso p, run = .ok (.jumped newStack ldso, p) ∧ check p.rank = true := by
  cases run with
  | running => cases h
  | exited => cases h
  | ok result =>
      obtain ⟨last, p⟩ := result
      cases last with
      | returned rc => cases h
      | jumped newStack ldso => exact ⟨newStack, ldso, p, rfl, h⟩

/-- The function of this symbol is found at `x`. -/
def foundAt (env : RtldEnv) (content symbol : List UInt8) (value x : Nat) :
    Exec (List UInt8 × Loader) → Bool
  | .ok (name, ld) => decide (ld.Puts content value x ∧
      getSymbolOffset env.loader.files env.loader.junk name symbol = .ok (value : Int))
  | _ => false

theorem functionAt_of_foundAt {env : RtldEnv} {s : AddrSpace} {content symbol : List UInt8}
    {value x : Nat} (h : foundAt env content symbol value x (env.loaded s) = true) :
    env.FunctionAt s content symbol x := by
  cases hloaded : env.loaded s with
  | running => rw [hloaded] at h; cases h
  | exited => rw [hloaded] at h; cases h
  | ok result =>
      rw [hloaded] at h
      obtain ⟨hputs, hvalue⟩ := of_decide_eq_true h
      exact ⟨result.1, result.2, value, hloaded, hputs, hvalue⟩

theorem keepsBase_smallLd : KeepsBase (smallLd 0) := by
  rw [KeepsBase, loadSegments_smallLd 0 (by decide)]
  decide

/-- The `sbrk` of ld.so is at `0x1c0000100`, and it is the wrapper's. -/
theorem runRtld_handsOver_rankZero : ∃ newStack ldso p,
    runRtld (launchEnv 0) launchSpace none = .ok (.jumped newStack ldso, p) ∧
      HandsOver (launchEnv 0) (@rankLayout_launchSpace 0 (by decide)).site launchSpace none newStack
        ldso p ∧
        (launchEnv 0).FunctionAt launchSpace (smallLd 0) sbrkSymbolName 0x1c0000100 ∧
          JumpsTo p.rank.space 0x1c0000100 (launchEnv 0).loader.lhInfo.lhSbrk := by
  have hjumps : jumpsWith (fun _ => true) (runRtld (launchEnv 0) launchSpace none) = true := by
    decide +kernel
  obtain ⟨newStack, ldso, p, hrun, -⟩ := exists_of_jumpsWith hjumps
  have hands := runRtld_handsOver (@starts_launchEnv 0 (by decide)) hrun
  have hsbrk : (launchEnv 0).FunctionAt launchSpace (smallLd 0) sbrkSymbolName 0x1c0000100 :=
    @functionAt_of_foundAt (launchEnv 0) launchSpace (smallLd 0) sbrkSymbolName 0x100 0x1c0000100
      (by decide +kernel)
  have haddr := (hands.functions (smallLd 0) (ldFile_launchEnv (by decide)) keepsBase_smallLd).1 _ hsbrk
  refine ⟨newStack, ldso, p, hrun, hands, hsbrk, ?_⟩
  rw [← haddr]
  exact hands.sbrk

end CkptRestart
