import CkptRestart.AddressSpace
import CkptRestart.Lib.Exec
import CkptRestart.MemCkpt.Write

/-!
# MemRestore — reading an image back into memory

`mem-restore.c` up to the point where the ranks are started: for each record of an image the restorer
checks that its place is free, maps it through `mmapWrapper`, reads its bytes, and gives it its
protection.

`restoreMemoryRegion_cases` says what one record comes to: it is refused, or it is mapped and the way
its reads end decides.
-/

namespace CkptRestart

open Lib

/-! ## The code -/

/-- The restoring process: its address space and the statics of the mmap wrapper. -/
structure Restorer where
  space : AddrSpace
  table : MmapTable

def emptyRestorer : Restorer where
  space := emptySpace
  table := .initial

def anyOverlappingRegion (k : Kernel) (s : AddrSpace) (area : Area) : Bool :=
  match k.procMaps s with
  | none => true
  | some maps => maps.areas.any fun p => doAreasOverlap p.addr p.size area.addr area.size

def restoreCall (area : Area) : MmapCall :=
  ⟨area.addr, area.size, area.prot ||| protWrite, CkptRestart.mapFixed ||| mapPrivate |||
    mapAnonymous, -1, 0⟩

def restoreMemoryRegion (k : Kernel) (area : Area) (r : Restorer) (ckptfd : InFile) :
    Option (Int × Restorer × InFile) :=
  if anyOverlappingRegion k r.space area then some (-1, r, ckptfd)
  else
    let (world, space) := k.mmapFixed r.space (restoreCall area)
    let out := mmapWrapper r.table (restoreCall area) world
    if out.ret = mapFailed then some (-1, ⟨space, out.table⟩, ckptfd)
    else do
      let rd ← readAll ckptfd area.size
      let space := space.store area.addr rd.data
      -- `bytes < area->size` compares as `size_t`
      if toUnsigned rd.ret < area.size then pure (-1, ⟨space, out.table⟩, rd.file)
      else
        let (rc, space) := k.mprotect space area.addr area.size area.prot
        if rc < 0 then pure (-1, ⟨space, out.table⟩, rd.file)
        else pure (0, ⟨space, out.table⟩, rd.file)

/-- The loop of `restoreMemory`.  `buf` is the variable `area`, of which a short read fills only the
front; `fuel` bounds the number of its rounds. -/
def restoreLoop (k : Kernel) : Nat → List UInt8 → Restorer → InFile →
    Option (Int × Restorer × InFile)
  | 0, _, _, _ => none
  | fuel + 1, buf, r, ckptfd => do
      let rd ← readAll ckptfd areaSize
      -- only the end of the file stops the loop; after a failed read it goes on with what `area` holds
      if rd.ret = 0 then pure (0, r, rd.file)
      else do
        let buf := rd.data ++ buf.drop rd.data.length
        let (rc, r, ckptfd) ← restoreMemoryRegion k (decodeArea buf) r rd.file
        if rc = 0 then restoreLoop k fuel buf r ckptfd
        else pure (rc, r, ckptfd)

/-- `restoreMemory`: every round makes a call of `read`. -/
def restoreMemory (k : Kernel) (r : Restorer) (ckptfd : InFile) :
    Option (Int × Restorer × InFile) :=
  restoreLoop k (ckptfd.replies.length + 1) (List.replicate areaSize 0) r ckptfd

/-- An image file, if it can be opened, and the results of the reads from it. -/
structure Image where
  content : Option (List UInt8)
  reads : List (Reply Errno)

/-- `restoreMemoryForImage`: the result, what the zeroed `*st` then holds, and the process.  A context
that is cut off fails the assertion. -/
def restoreMemoryForImage (k : Kernel) (img : Image) (r : Restorer) :
    Exec (Int × CkptRestartState × Restorer) :=
  match img.content with
  | none => pure (-1, .blank, r)
  | some content => do
      let rd ← Exec.ofOption (readAll ⟨content, img.reads⟩ stateSize)
      if rd.ret ≠ stateSize then .exited
      else do
        let (rc, r, _) ← Exec.ofOption (restoreMemory k r rd.file)
        pure (if rc < 0 then -1 else 0, decodeState rd.data, r)

def restoreMemoryForImages (k : Kernel) : List Image → Restorer →
    Exec (Int × List CkptRestartState × Restorer)
  | [], r => pure (0, [], r)
  | img :: imgs, r => do
      let (rc, st, r) ← restoreMemoryForImage k img r
      if rc < 0 then pure (-1, [st], r)
      else do
        let (rc, sts, r) ← restoreMemoryForImages k imgs r
        pure (rc, st :: sts, r)

/-! ## What one record comes to -/

/-- The process after a record was mapped and `n` bytes of the file were read into it. -/
def Restorer.filled (r : Restorer) (area : Area) (hvalid : ValidRange area.addr area.size)
    (data : List UInt8) : Restorer where
  space := (r.space.mapFixed area.addr area.size (area.prot ||| protWrite) hvalid).store area.addr data
  table := r.table.track ⟨area.addr, area.size⟩

/-- The end of `restoreMemoryRegion`: the call of `mprotect`. -/
def protectRecord (k : Kernel) (area : Area) (r : Restorer) : Int × Restorer :=
  let (rc, space) := k.mprotect r.space area.addr area.size area.prot
  (if rc < 0 then -1 else 0, ⟨space, r.table⟩)

/-- What a record that is mapped comes to when its reads have ended: only a short count is seen. -/
def recordResult (k : Kernel) (area : Area) (hvalid : ValidRange area.addr area.size) (r : Restorer)
    (f : InFile) (p : Progress Errno) : Int × Restorer × InFile :=
  let r := r.filled area hvalid (f.stream.take p.moved)
  let f := ⟨f.stream.drop p.moved, p.rest⟩
  if p.ending = .stopped then (-1, r, f)
  else ((protectRecord k area r).1, (protectRecord k area r).2, f)

/-- `-1`, as a `size_t`, is not less than any size that can be mapped. -/
theorem not_unsigned_neg_one_lt {n : Nat} (h : n < wordSize) : ¬ toUnsigned (-1) < n := by
  have hmax : toUnsigned (-1) = wordSize - 1 := by decide
  rw [hmax]
  omega

theorem ValidRange.len_lt {addr len : Nat} (h : ValidRange addr len) : len < wordSize := by
  have := h.room
  have := le_pagesUp len
  omega

/-- The comparison of `restoreMemoryRegion` sees a count that is short, and nothing else. -/
theorem short_iff {sched : List (Reply Errno)} {stream : List UInt8} {want avail : Nat}
    {p : Progress Errno} (hp : Driven sched want avail p) (hwant : want < wordSize) :
    toUnsigned (readResult stream [] p).ret < want ↔ p.ending = .stopped := by
  have hmoved : toUnsigned (toSigned p.moved) = p.moved :=
    toUnsigned_toSigned (lt_of_le_of_lt hp.moved_le_want hwant)
  cases hend : p.ending with
  | full =>
      have hall := hp.full_iff.1 hend
      rw [hall] at hmoved
      simp [readResult, hend, hall, hmoved]
  | stopped =>
      have hne : p.moved ≠ want := fun hall => by
        simpa [hend] using hp.full_iff.2 hall
      have hlt := Nat.lt_of_le_of_ne hp.moved_le_want hne
      simp [readResult, hend, hmoved, hlt]
  | failed e => simpa [readResult, hend] using not_unsigned_neg_one_lt hwant

/-- A record whose place is taken, or which the kernel does not map, fails; any other is mapped, and
its reads decide. -/
theorem restoreMemoryRegion_cases (k : Kernel) (area : Area) (r : Restorer) (f : InFile) :
    ((anyOverlappingRegion k r.space area = true ∨ ¬ k.Grants r.space (restoreCall area)) ∧
        ∃ r', restoreMemoryRegion k area r f = some (-1, r', f)) ∨
      (anyOverlappingRegion k r.space area = false ∧ k.Grants r.space (restoreCall area) ∧
        ∃ hvalid : ValidRange area.addr area.size, restoreMemoryRegion k area r f =
          (drive retries f.replies area.size f.stream.length).map
            (recordResult k area hvalid r f)) := by
  by_cases hover : anyOverlappingRegion k r.space area = true
  · left
    exact ⟨Or.inl hover, r, by simp [restoreMemoryRegion, hover]⟩
  rcases k.mmapFixed_cases r.space (restoreCall area) with
    ⟨hno, hfail, _⟩ | ⟨hgrants, hvalid, hmap⟩
  · left
    rcases mmapWrapper_of_failed r.table (restoreCall area) hfail with ⟨_, hret, htable⟩
    exact ⟨Or.inr hno, ⟨(k.mmapFixed r.space (restoreCall area)).2, r.table⟩,
      by simp [restoreMemoryRegion, hover, hret, htable]⟩
  · right
    have hvalid' : ValidRange area.addr area.size := hvalid
    refine ⟨by simpa using hover, hgrants, hvalid', ?_⟩
    have haddr : area.addr ≠ mapFailed := hvalid'.ne_mapFailed
    have hmap' : k.mmapFixed r.space (restoreCall area) = (⟨area.addr, .EINVAL, none⟩,
        r.space.mapFixed area.addr area.size (area.prot ||| protWrite) hvalid') := hmap
    have hret : (mmapWrapper r.table (restoreCall area) ⟨area.addr, .EINVAL, none⟩).ret =
        area.addr := by simp [mmapWrapper, restoreCall, haddr]
    have htable : (mmapWrapper r.table (restoreCall area) ⟨area.addr, .EINVAL, none⟩).table =
        r.table.track ⟨area.addr, area.size⟩ := by simp [mmapWrapper, restoreCall, haddr]
    simp only [restoreMemoryRegion, if_neg hover, hmap', hret, htable, if_neg haddr, readAll_eq]
    rw [Option.map_eq_bind, Option.map_eq_bind, Option.bind_eq_bind, Option.bind_assoc]
    refine Option.bind_congr fun p hp => ?_
    have hshort := @short_iff _ f.stream _ _ _ (drive_driven retries hp) hvalid'.len_lt
    simp only [Function.comp_apply, Option.bind_some]
    by_cases hstopped : p.ending = .stopped
    · rw [if_pos (hshort.2 hstopped)]
      simp [recordResult, Restorer.filled, hstopped, readResult]
    · have hge : ¬ toUnsigned (readResult f.stream [] p).ret < area.size :=
        fun hlt => hstopped (hshort.1 hlt)
      rw [if_neg hge]
      simp only [recordResult, protectRecord, Restorer.filled, if_neg hstopped, readResult,
        List.nil_append]
      by_cases hprotect : (k.mprotect ((r.space.mapFixed area.addr area.size (area.prot ||| protWrite)
          hvalid').store area.addr (f.stream.take p.moved)) area.addr area.size area.prot).1 < 0
      · simp [hprotect]
      · simp [hprotect]

/-- The call of `mprotect` leaves the bytes; on what was just mapped it fails only if the kernel
refuses it. -/
theorem protectRecord_filled (k : Kernel) (area : Area) (r : Restorer)
    (hvalid : ValidRange area.addr area.size) (data : List UInt8) :
    (protectRecord k area (r.filled area hvalid data)).2.space.bytes =
        (r.filled area hvalid data).space.bytes ∧
      (protectRecord k area (r.filled area hvalid data)).1 =
        if k.refusesMprotect (r.filled area hvalid data).space area.addr area.size area.prot = none
          then 0 else -1 := by
  have hmapped : (r.filled area hvalid data).space.mapped area.addr area.size = true :=
    AddrSpace.mapped_mapFixed r.space (area.prot ||| protWrite) hvalid
  refine ⟨k.bytes_mprotect _ _ _ _, ?_⟩
  cases hrefuse : k.refusesMprotect (r.filled area hvalid data).space area.addr area.size
      area.prot with
  | none => simp [protectRecord, Kernel.mprotect, hrefuse, hvalid, hmapped]
  | some e => simp [protectRecord, Kernel.mprotect, hrefuse]

/-- A record that is mapped and whose bytes are there gets them. -/
theorem restoreMemoryRegion_full (k : Kernel) {area : Area} (r : Restorer) {f : InFile} {n : Nat}
    (hspare : f.Spare n) (hthere : area.size ≤ f.stream.length)
    (hover : anyOverlappingRegion k r.space area = false)
    (hgrants : k.Grants r.space (restoreCall area)) :
    ∃ hvalid f', restoreMemoryRegion k area r f =
        some ((protectRecord k area (r.filled area hvalid (f.stream.take area.size))).1,
          (protectRecord k area (r.filled area hvalid (f.stream.take area.size))).2, f') ∧
      f'.stream = f.stream.drop area.size ∧ f'.Spare n := by
  rcases restoreMemoryRegion_cases k area r f with ⟨htaken | hno, _⟩ | ⟨_, _, hvalid, hres⟩
  · simp [hover] at htaken
  · exact absurd hgrants hno
  · have henough := hspare.enough
    rcases drive_prompt retries hspare.prompt hthere (by omega) with
      ⟨p, hp, hmoved, hfull, hstrength⟩
    have hsuffix := (drive_driven retries hp).rest_suffix
    refine ⟨hvalid, ⟨f.stream.drop area.size, p.rest⟩, ?_, rfl,
      fun q hq => hspare.prompt q (hsuffix.mem hq), ?_⟩
    · rw [hres, hp, Option.map_some, recordResult, if_neg (by simp [hfull]), hmoved]
    · simp only [List.length_drop]
      omega

/-! ## The loop ends -/

theorem restoreMemoryRegion_replies_le {k : Kernel} {area : Area} {r r' : Restorer}
    {f f' : InFile} {rc : Int} (h : restoreMemoryRegion k area r f = some (rc, r', f')) :
    f'.replies.length ≤ f.replies.length := by
  rcases restoreMemoryRegion_cases k area r f with ⟨_, r₁, hfail⟩ | ⟨_, _, hvalid, hres⟩
  · obtain ⟨_, _, rfl⟩ : -1 = rc ∧ r₁ = r' ∧ f = f' := by simpa [hfail] using h
    exact le_rfl
  · rw [hres] at h
    rcases Option.map_eq_some_iff.1 h with ⟨p, hp, hout⟩
    obtain rfl : ⟨f.stream.drop p.moved, p.rest⟩ = f' := by
      rw [recordResult] at hout
      split at hout <;> exact congrArg (fun o => o.2.2) hout
    exact (drive_driven retries hp).rest_suffix.length_le

/-- Once there are more rounds than calls of `read` left, their number makes no difference. -/
theorem restoreLoop_fuel (k : Kernel) {n m : Nat} (buf : List UInt8) (r : Restorer) {f : InFile}
    (hn : f.replies.length < n) (hm : f.replies.length < m) :
    restoreLoop k n buf r f = restoreLoop k m buf r f := by
  induction n generalizing m buf r f with
  | zero => exact absurd hn (Nat.not_lt_zero _)
  | succ n ih =>
      cases m with
      | zero => exact absurd hm (Nat.not_lt_zero _)
      | succ m =>
          simp only [restoreLoop]
          refine Option.bind_congr fun rd hrd => ?_
          have hless := readAll_replies_lt (by decide) hrd
          split
          · rfl
          · refine Option.bind_congr ?_
            rintro ⟨rc, r', f'⟩ hregion
            have hle := restoreMemoryRegion_replies_le hregion
            split
            · have hn' : f'.replies.length < n := by omega
              have hm' : f'.replies.length < m := by omega
              exact ih _ _ hn' hm'
            · rfl

end CkptRestart
