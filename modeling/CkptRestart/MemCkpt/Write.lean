import CkptRestart.Format
import CkptRestart.Utils
import CkptRestart.MemCkpt.Select
import CkptRestart.Lib.Exec

/-!
# Write — the bytes of a checkpoint

`checkpointContext`, `writeMemoryRegion` and `checkpointMemory`.  None of their callers looks at a
result, so whatever fails, the next buffer is written where the last one ended.

A checkpoint is thus one sequence of buffers (`imageBuffers`); `writeBuffers_spec` says what is in
the file after it, and `Lib.Delivers` when that is all of it.
-/

namespace CkptRestart

open Lib

/-! ## Memory -/

/-- The memory of a process: the maps file and the byte at every address. -/
structure Mem where
  maps : MapsSnapshot
  bytes : Nat → UInt8

def Mem.read (m : Mem) (addr n : Nat) : List UInt8 := (List.range' addr n).map m.bytes

@[simp] theorem Mem.length_read (m : Mem) (addr n : Nat) : (m.read addr n).length = n := by
  simp [Mem.read]

theorem Mem.getD_read (m : Mem) {addr n x : Nat} (hlo : addr ≤ x) (hhi : x < addr + n)
    (default : UInt8) : (m.read addr n).getD (x - addr) default = m.bytes x := by
  have hlt : x - addr < n := by omega
  have hx : addr + (x - addr) = x := by omega
  simp [Mem.read, List.getD, hlt, hx]

/-! ## The code -/

/-- `writeMemoryRegion`: the sum of both results, and the descriptor. -/
def writeMemoryRegion (m : Mem) (area : Area) (out : OutFile) : Option (Int × OutFile) := do
  let (rc, out) ← writeAll (encodeArea area) out
  let (rc', out) ← writeAll (m.read area.addr area.size) out
  pure (toInt32 (toInt32 rc + rc'), out)

def writeRelevantMemoryRegion (m : Mem) (fnc : Option (List MmapInfo)) (area : Area)
    (out : OutFile) : Option (Int × OutFile) :=
  match relevantRecord fnc area with
  | none => some (0, out)
  | some r => writeMemoryRegion m r out

/-- The loop of `checkpointMemory` over the lines of the maps file. -/
def checkpointAreas (m : Mem) (fnc : Option (List MmapInfo)) :
    List Area → OutFile → Option OutFile
  | [], out => some out
  | area :: areas, out =>
      if skipRegion area then checkpointAreas m fnc areas out
      else do
        let (_, out) ← writeRelevantMemoryRegion m fnc area out
        checkpointAreas m fnc areas out

/-- `checkpointMemory`; `mapsOpens` is whether the maps file can be opened. -/
def checkpointMemory (mapsOpens : Bool) (m : Mem) (fnc : Option (List MmapInfo))
    (out : OutFile) : Exec OutFile :=
  if mapsOpens then Exec.ofOption (checkpointAreas m fnc m.maps.areas out) else .exited

def checkpointContext (st : CkptRestartState) (out : OutFile) : Option OutFile := do
  let (_, out) ← writeAll (encodeState st) out
  pure out

/-! ## One sequence of buffers -/

def writeBuffers : List (List UInt8) → OutFile → Option OutFile
  | [], out => some out
  | buf :: bufs, out => do
      let (_, out) ← writeAll buf out
      writeBuffers bufs out

def recordBuffers (m : Mem) (records : List Area) : List (List UInt8) :=
  records.flatMap fun r => [encodeArea r, m.read r.addr r.size]

theorem checkpointAreas_eq (m : Mem) (fnc : Option (List MmapInfo)) (areas : List Area)
    (out : OutFile) :
    checkpointAreas m fnc areas out =
      writeBuffers (recordBuffers m (selectRecords fnc areas)) out := by
  induction areas generalizing out with
  | nil => rfl
  | cons area areas ih =>
      by_cases hskip : skipRegion area = true
      · have hsel : selectRecords fnc (area :: areas) = selectRecords fnc areas := by
          simp [selectRecords, recordOf, hskip]
        simp [checkpointAreas, hskip, hsel, ih]
      · cases hrec : relevantRecord fnc area with
        | none =>
            have hsel : selectRecords fnc (area :: areas) = selectRecords fnc areas := by
              simp [selectRecords, recordOf, hskip, hrec]
            simp [checkpointAreas, writeRelevantMemoryRegion, hskip, hrec, hsel, ih]
        | some r =>
            have hsel : selectRecords fnc (area :: areas) = r :: selectRecords fnc areas := by
              simp [selectRecords, recordOf, hskip, hrec]
            simp [checkpointAreas, writeRelevantMemoryRegion, writeMemoryRegion, writeBuffers,
              recordBuffers, Option.bind_assoc, hskip, hrec, hsel, ih]

/-- What has reached the file when a sequence of buffers has been written to its end. -/
structure Written (bufs : List (List UInt8)) (out out' : OutFile) (data : List UInt8) : Prop where
  content : out'.content = out.content ++ data
  atEnd : out'.offset = out'.content.length
  all : Delivers retries out.replies (bufs.map List.length) → data = bufs.flatten
  short : ¬ Delivers retries out.replies (bufs.map List.length) →
    data.length < bufs.flatten.length

/-- One buffer, written at the end of the file, adds a prefix of itself. -/
theorem writeAll_atEnd {buf : List UInt8} {out out' : OutFile} {rc : Int}
    (hend : out.offset = out.content.length) (h : writeAll buf out = some (rc, out')) :
    ∃ p, driveOnce retries out.replies buf.length = some p ∧
      out' = ⟨out.content ++ buf.take p.moved, out.offset + p.moved, p.rest⟩ := by
  rw [writeAll_eq] at h
  rcases Option.map_eq_some_iff.1 h with ⟨p, hp, hres⟩
  refine ⟨p, hp, ?_⟩
  have hout := congrArg Prod.snd hres
  simpa [writeResult, hend, overwrite_end] using hout.symm

theorem writeBuffers_spec {bufs : List (List UInt8)} {out out' : OutFile}
    (hend : out.offset = out.content.length) (h : writeBuffers bufs out = some out') :
    ∃ data, Written bufs out out' data := by
  induction bufs generalizing out with
  | nil =>
      obtain rfl : out = out' := by simpa [writeBuffers] using h
      exact ⟨[], by simp, hend, by simp, by simp [Delivers]⟩
  | cons buf bufs ih =>
      rcases Option.bind_eq_some_iff.1 h with ⟨⟨rc, mid⟩, hmid, hrest⟩
      rcases writeAll_atEnd hend hmid with ⟨p, hp, rfl⟩
      have hle : p.moved ≤ buf.length := driveOnce_moved_le retries hp
      have hlen : (buf.take p.moved).length = p.moved := List.length_take_of_le hle
      have hend' : out.offset + p.moved = (out.content ++ buf.take p.moved).length := by
        rw [List.length_append, hlen, hend]
      rcases ih hend' hrest with ⟨data, hdata⟩
      -- what the later buffers add is never longer than they are
      have hbound : data.length ≤ bufs.flatten.length := by
        by_cases hd : Delivers retries p.rest (bufs.map List.length)
        · exact le_of_eq (congrArg List.length (hdata.all hd))
        · exact le_of_lt (hdata.short hd)
      refine ⟨buf.take p.moved ++ data, ?_, hdata.atEnd, ?_, ?_⟩
      · simpa [List.append_assoc] using hdata.content
      · intro hd
        rcases hd with ⟨q, hq, hfull, hd⟩
        obtain rfl : p = q := Option.some.inj (hp.symm.trans hq)
        simp [hdata.all hd, hfull]
      · intro hd
        rw [List.length_append, hlen, List.flatten_cons, List.length_append]
        by_cases hfull : p.moved = buf.length
        · -- this buffer is whole, so a later one is not
          have hshort := hdata.short fun hd' =>
            hd ((delivers_cons_of_full retries hp hfull).2 hd')
          omega
        · omega

/-- Requests that are all carried out leave no loop running. -/
theorem writeBuffers_of_delivers {bufs : List (List UInt8)} {out : OutFile}
    (hend : out.offset = out.content.length)
    (h : Delivers retries out.replies (bufs.map List.length)) :
    ∃ out', writeBuffers bufs out = some out' := by
  induction bufs generalizing out with
  | nil => exact ⟨out, rfl⟩
  | cons buf bufs ih =>
      rcases h with ⟨p, hp, _, hrest⟩
      have hwrite := writeAll_eq buf out
      rw [hp, Option.map_some] at hwrite
      rcases writeAll_atEnd hend hwrite with ⟨q, hq, hmid⟩
      obtain rfl : p = q := Option.some.inj (hp.symm.trans hq)
      have hlen : (buf.take p.moved).length = p.moved :=
        List.length_take_of_le (driveOnce_moved_le retries hp)
      have hend' : out.offset + p.moved = (out.content ++ buf.take p.moved).length := by
        rw [List.length_append, hlen, hend]
      rcases @ih ⟨out.content ++ buf.take p.moved, out.offset + p.moved, p.rest⟩ hend' hrest with
        ⟨out', hout'⟩
      rw [← hmid] at hout'
      have hhead : writeBuffers (buf :: bufs) out =
          writeBuffers bufs (writeResult out.content out.offset buf 0 p).2 := by
        simp [writeBuffers, hwrite]
      exact ⟨out', hhead.trans hout'⟩

/-! ## The image -/

def imageBuffers (st : CkptRestartState) (m : Mem) (records : List Area) : List (List UInt8) :=
  encodeState st :: recordBuffers m records

/-- A complete image: the context, then for each record its header and its bytes. -/
def imageBytes (st : CkptRestartState) (m : Mem) (records : List Area) : List UInt8 :=
  encodeState st ++ records.flatMap fun r => encodeArea r ++ m.read r.addr r.size

/-- The sizes of the requests that a checkpoint makes of the image file. -/
def imageRequests (records : List Area) : List Nat :=
  stateSize :: records.flatMap fun r => [areaSize, r.size]

theorem flatten_imageBuffers (st : CkptRestartState) (m : Mem) (records : List Area) :
    (imageBuffers st m records).flatten = imageBytes st m records := by
  have hrecords : (recordBuffers m records).flatten =
      records.flatMap fun r => encodeArea r ++ m.read r.addr r.size := by
    induction records with
    | nil => rfl
    | cons r records ih => simpa [recordBuffers] using ih
  simp [imageBuffers, imageBytes, hrecords]

theorem map_length_imageBuffers (st : CkptRestartState) (m : Mem) (records : List Area) :
    (imageBuffers st m records).map List.length = imageRequests records := by
  have hrecords : (recordBuffers m records).map List.length =
      records.flatMap fun r => [areaSize, r.size] := by
    induction records with
    | nil => rfl
    | cons r records ih => simpa [recordBuffers] using ih
  simp [imageBuffers, imageRequests, hrecords]

/-- The length of an image depends on the sizes of its records alone. -/
theorem length_imageBytes (st : CkptRestartState) (m : Mem) (records : List Area) :
    (imageBytes st m records).length = (imageRequests records).sum := by
  rw [← flatten_imageBuffers, List.length_flatten, map_length_imageBuffers]

theorem imageBytes_ne_nil (st : CkptRestartState) (m : Mem) (records : List Area) :
    imageBytes st m records ≠ [] := by
  intro hnil
  have hlen := congrArg List.length hnil
  rw [length_imageBytes, imageRequests, List.sum_cons] at hlen
  have hpos : 0 < stateSize := by decide
  simp only [List.length_nil] at hlen
  omega

/-- Context and memory, written to an empty file, leave the image exactly when every request is
carried out in full. -/
theorem image_written_iff {st : CkptRestartState} {m : Mem} {records : List Area}
    {replies : List (Reply Errno)} {out : OutFile}
    (h : writeBuffers (imageBuffers st m records) ⟨[], 0, replies⟩ = some out) :
    out.content = imageBytes st m records ↔
      Delivers retries replies (imageRequests records) := by
  rcases writeBuffers_spec rfl h with ⟨data, hdata⟩
  have hcontent : out.content = data := by simpa using hdata.content
  rw [← map_length_imageBuffers st m records, ← flatten_imageBuffers, hcontent]
  constructor
  · intro heq
    by_contra hd
    exact absurd (hdata.short hd) (by simp [heq])
  · exact hdata.all

end CkptRestart
