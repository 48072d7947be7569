import CkptRestart.MemRestore

/-!
# ReadResults — what a record's reads come to

`restoreMemoryRegion` compares the `ssize_t` that `readAll` returns with a `size_t`, so `-1` is the
largest value there is and a read that failed is not short.

`reportsReads_iff` says when the result of a record tells whether its bytes were read.
-/

namespace CkptRestart

open Lib

/-! ## When the result tells whether the bytes were read -/

/-- All bytes of the record were read, and stored in order from its address on. -/
structure ReadWhole (area : Area) (f : InFile) (r' : Restorer) (f' : InFile) : Prop where
  there : area.size ≤ f.stream.length
  stored : ∀ i < area.size, r'.space.bytes (area.addr + i) = f.stream.getD i 0
  consumed : f'.stream = f.stream.drop area.size

/-- The result is zero only if the whole record was read, and `-1` otherwise. -/
def ReportsReads (k : Kernel) (area : Area) (r : Restorer) (f : InFile) : Prop :=
  ∀ rc r' f', restoreMemoryRegion k area r f = some (rc, r', f') →
    (rc = 0 → ReadWhole area f r' f') ∧ (rc ≠ 0 → rc = -1)

/-- A call of `read` for a record that is mapped fails with an error other than `EINTR` and `EAGAIN`
before all bytes have come, and nothing fails after it. -/
def FailedReadLast (k : Kernel) (area : Area) (r : Restorer) (f : InFile) : Prop :=
  anyOverlappingRegion k r.space area = false ∧ k.Grants r.space (restoreCall area) ∧
    ∃ n, ∃ hvalid : ValidRange area.addr area.size,
      FailsAfter retries f.replies area.size f.stream.length n ∧
        k.refusesMprotect (r.filled area hvalid (f.stream.take n)).space area.addr area.size
          area.prot = none

/-- The bytes read into a record that is mapped. -/
theorem bytes_filled {r : Restorer} {area : Area} {hvalid : ValidRange area.addr area.size}
    {data : List UInt8} {i : Nat} (hi : i < data.length) :
    (r.filled area hvalid data).space.bytes (area.addr + i) = data.getD i 0 := by
  have hin : area.addr ≤ area.addr + i ∧ area.addr + i < area.addr + data.length := by omega
  simpa [Restorer.filled, AddrSpace.store] using fun h => absurd hin.2 (by omega)

/-- A read that failed is taken for a whole one. -/
theorem FailedReadLast.returns_zero {k : Kernel} {area : Area} {r : Restorer} {f : InFile}
    (h : FailedReadLast k area r f) :
    ∃ n r' f', n < area.size ∧ n ≤ f.stream.length ∧ f'.stream = f.stream.drop n ∧
      restoreMemoryRegion k area r f = some (0, r', f') := by
  rcases h with ⟨hover, hgrants, n, hvalid, hfails, hprotect⟩
  rcases hfails.drive with ⟨p, e, hp, hend, rfl⟩
  have hdriven := drive_driven retries hp
  have hne : p.moved ≠ area.size := fun hall => by simpa [hend] using hdriven.full_iff.2 hall
  refine ⟨p.moved, (protectRecord k area (r.filled area hvalid (f.stream.take p.moved))).2,
    ⟨f.stream.drop p.moved, p.rest⟩, lt_of_le_of_ne hdriven.moved_le_want hne,
    hdriven.moved_le_avail, rfl, ?_⟩
  rcases restoreMemoryRegion_cases k area r f with ⟨htaken | hno, _⟩ | ⟨_, _, hvalid', hres⟩
  · simp [hover] at htaken
  · exact absurd hgrants hno
  · have hrc := (protectRecord_filled k area r hvalid' (f.stream.take p.moved)).2
    rw [if_pos hprotect] at hrc
    rw [hres, hp, Option.map_some, recordResult, if_neg (by simp [hend]), hrc]

theorem FailedReadLast.not_reportsReads {k : Kernel} {area : Area} {r : Restorer} {f : InFile}
    (h : FailedReadLast k area r f) : ¬ ReportsReads k area r f := by
  intro hreports
  rcases h.returns_zero with ⟨n, r', f', hlt, hle, hstream, hres⟩
  have hwhole := (hreports 0 r' f' hres).1 rfl
  have hlen := congrArg List.length (hstream.symm.trans hwhole.consumed)
  have hthere := hwhole.there
  simp only [List.length_drop] at hlen
  omega

/-- The result of a record tells whether its bytes were read, unless a failed read was the last thing
to fail. -/
theorem reportsReads_iff (k : Kernel) (area : Area) (r : Restorer) (f : InFile) :
    ReportsReads k area r f ↔ ¬ FailedReadLast k area r f := by
  refine ⟨fun hreports hfailed => hfailed.not_reportsReads hreports, fun hok rc r' f' hres => ?_⟩
  rcases restoreMemoryRegion_cases k area r f with ⟨_, r₁, hfail⟩ | ⟨hover, hgrants, hvalid, hrec⟩
  · obtain ⟨rfl, _, _⟩ : -1 = rc ∧ r₁ = r' ∧ f = f' := by simpa [hfail] using hres
    simp
  · rw [hrec] at hres
    rcases Option.map_eq_some_iff.1 hres with ⟨p, hp, hout⟩
    have hdriven := drive_driven retries hp
    rcases protectRecord_filled k area r hvalid (f.stream.take p.moved) with ⟨hbytes, hrc⟩
    cases hend : p.ending with
    | stopped =>
        -- the file ended: the count is below the size, and `-1` is returned
        rw [recordResult, if_pos hend] at hout
        obtain ⟨rfl, _, _⟩ := hout
        simp
    | full =>
        rw [recordResult, if_neg (by simp [hend])] at hout
        obtain ⟨rfl, rfl, rfl⟩ := hout
        have hmoved := hdriven.full_iff.1 hend
        -- all bytes are there; what is left to fail is the `mprotect`
        constructor
        · intro _
          have hthere : area.size ≤ f.stream.length := by
            rw [← hmoved]
            exact hdriven.moved_le_avail
          refine ⟨hthere, fun i hi => ?_, by rw [hmoved]⟩
          have hlen : (f.stream.take p.moved).length = area.size := by
            rw [hmoved, List.length_take_of_le hthere]
          rw [hbytes, bytes_filled (hlen.symm ▸ hi)]
          simp [hmoved, List.getD_eq_getElem?_getD, List.getElem?_take_of_lt hi]
        · rw [hrc]
          split <;> simp
    | failed e =>
        -- the `-1` of `readAll` passes for a large count, so only the `mprotect` can report it
        rw [recordResult, if_neg (by simp [hend])] at hout
        obtain ⟨rfl, _, _⟩ := hout
        have hrefused : ¬ k.refusesMprotect (r.filled area hvalid (f.stream.take p.moved)).space
            area.addr area.size area.prot = none := fun hnone =>
          hok ⟨hover, hgrants, p.moved, hvalid, FailsAfter.of_drive retries hp hend, hnone⟩
        rw [hrc, if_neg hrefused]
        simp

open Errno in
/-- The disk fails after the first byte of the heap; the heap counts as restored. -/
theorem not_reportsReads_diskFailure :
    ¬ ReportsReads .plain mergedHeap emptyRestorer
      ⟨List.replicate 0x2000 7, [.moved 1, .error EIO]⟩ := by
  apply FailedReadLast.not_reportsReads
  have hvalid : ValidRange mergedHeap.addr mergedHeap.size := by decide
  refine ⟨rfl, ⟨rfl, hvalid⟩, 1, hvalid, ?_, rfl⟩
  have hlen : (List.replicate 0x2000 (7 : UInt8)).length = 0x1fff + 1 := List.length_replicate
  rw [hlen]
  exact .moves (m := 0) (by decide) (.fails rfl)

end CkptRestart
