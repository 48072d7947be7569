import CkptRestart.MemRestore.Records

/-!
# Touches — the pages that a restore writes to

The functions of `MemRestore` once more, this time with the list of calls that change memory: for
each record the `mmap`, the `read` of its data and the `mprotect`, each with its range.  A restore
that is still running, or that an assertion has ended, has such a list too.

`restoreMemoryForImage_untouched` says that whatever the image holds, nothing that was mapped before
is in any of these ranges, and no record is in the range of another.
-/

namespace CkptRestart

open Lib

/-! ## Calls that change memory -/

inductive TouchCall
  | mmap
  | read
  | mprotect
  deriving DecidableEq, Repr

structure Touch where
  call : TouchCall
  addr : Nat
  len : Nat
  deriving DecidableEq, Repr

/-- All addresses of the pages that the range meets. -/
def Touch.pages (t : Touch) : Set Nat :=
  {x | ∃ y ∈ Set.Ico t.addr (t.addr + t.len), x / pageSize = y / pageSize}

theorem Touch.pages_subset {t : Touch} (h : PageAligned t.addr) :
    t.pages ⊆ Set.Ico t.addr (t.addr + pagesUp t.len) := by
  rintro x ⟨y, ⟨hlow, hhigh⟩, hpage⟩
  rcases h with ⟨k, hk⟩
  unfold pagesUp pageSize at *
  rw [Set.mem_Ico]
  omega

/-! ## The code, with its calls -/

/-- `restoreMemoryRegion`: the calls and the result. -/
def touchRegion (k : Kernel) (area : Area) (r : Restorer) (ckptfd : InFile) :
    List Touch × Option (Int × Restorer × InFile) :=
  if anyOverlappingRegion k r.space area then ([], some (-1, r, ckptfd))
  else
    let (world, space) := k.mmapFixed r.space (restoreCall area)
    let out := mmapWrapper r.table (restoreCall area) world
    if out.ret = mapFailed then
      -- what is no range the kernel turns down at once; in a range it may have removed something
      (if ValidRange area.addr area.size then [⟨.mmap, area.addr, area.size⟩] else [],
        some (-1, ⟨space, out.table⟩, ckptfd))
    else
      let filled : List Touch := [⟨.mmap, area.addr, area.size⟩, ⟨.read, area.addr, area.size⟩]
      match readAll ckptfd area.size with
      | none => (filled, none)
      | some rd =>
          let space := space.store area.addr rd.data
          if toUnsigned rd.ret < area.size then (filled, some (-1, ⟨space, out.table⟩, rd.file))
          else
            let (rc, space) := k.mprotect space area.addr area.size area.prot
            (filled ++ [⟨.mprotect, area.addr, area.size⟩],
              some (if rc < 0 then -1 else 0, ⟨space, out.table⟩, rd.file))

/-- The loop of `restoreMemory`: the calls for each record and the result. -/
def touchLoop (k : Kernel) : Nat → List UInt8 → Restorer → InFile →
    List (List Touch) × Option (Int × Restorer × InFile)
  | 0, _, _, _ => ([], none)
  | fuel + 1, buf, r, ckptfd =>
      match readAll ckptfd areaSize with
      | none => ([], none)
      | some rd =>
          if rd.ret = 0 then ([], some (0, r, rd.file))
          else
            let buf := rd.data ++ buf.drop rd.data.length
            let region := touchRegion k (decodeArea buf) r rd.file
            match region.2 with
            | none => ([region.1], none)
            | some (rc, r, ckptfd) =>
                if rc = 0 then
                  let rest := touchLoop k fuel buf r ckptfd
                  (region.1 :: rest.1, rest.2)
                else ([region.1], some (rc, r, ckptfd))

def touchImage (k : Kernel) (img : Image) (r : Restorer) :
    List (List Touch) × Exec (Int × CkptRestartState × Restorer) :=
  match img.content with
  | none => ([], pure (-1, .blank, r))
  | some content =>
      match readAll ⟨content, img.reads⟩ stateSize with
      | none => ([], .running)
      | some rd =>
          if rd.ret ≠ stateSize then ([], .exited)
          else
            let loop := touchLoop k (rd.file.replies.length + 1) (List.replicate areaSize 0) r rd.file
            (loop.1, Exec.ofOption loop.2 >>= fun out =>
              pure (if out.1 < 0 then -1 else 0, decodeState rd.data, out.2.1))

/-! ## The results are those of the code -/

theorem touchRegion_result (k : Kernel) (area : Area) (r : Restorer) (f : InFile) :
    (touchRegion k area r f).2 = restoreMemoryRegion k area r f := by
  simp only [touchRegion, restoreMemoryRegion]
  split
  · rfl
  · split
    · rfl
    · cases hread : readAll f area.size with
      | none => rfl
      | some rd =>
          simp only [Option.bind_eq_bind, Option.bind_some]
          split
          · rfl
          · split <;> rfl

theorem touchLoop_result (k : Kernel) (fuel : Nat) (buf : List UInt8) (r : Restorer) (f : InFile) :
    (touchLoop k fuel buf r f).2 = restoreLoop k fuel buf r f := by
  induction fuel generalizing buf r f with
  | zero => rfl
  | succ fuel ih =>
      simp only [touchLoop, restoreLoop]
      cases hread : readAll f areaSize with
      | none => rfl
      | some rd =>
          simp only [Option.bind_eq_bind, Option.bind_some]
          split
          · rfl
          · rw [← touchRegion_result]
            cases hregion : (touchRegion k
                (decodeArea (rd.data ++ buf.drop rd.data.length)) r rd.file).2 with
            | none => rfl
            | some out =>
                simp only [Option.bind_some]
                split
                · exact ih _ _ _
                · rfl

theorem touchImage_result (k : Kernel) (img : Image) (r : Restorer) :
    (touchImage k img r).2 = restoreMemoryForImage k img r := by
  cases hcontent : img.content with
  | none => simp [touchImage, restoreMemoryForImage, hcontent]
  | some content =>
      cases hread : readAll ⟨content, img.reads⟩ stateSize with
      | none => simp [touchImage, restoreMemoryForImage, hcontent, hread]
      | some rd =>
          by_cases hsize : rd.ret = stateSize
          · simp [touchImage, restoreMemoryForImage, restoreMemory, hcontent, hread, hsize,
              touchLoop_result]
          · simp [touchImage, restoreMemoryForImage, hcontent, hread, hsize]

/-! ## One record -/

/-- What is mapped in `s` is mapped in `s'` in the same way and with the same bytes. -/
structure Keeps (s s' : AddrSpace) : Prop where
  lookup : ∀ x ∈ s.mappedSet, s'.maps.lookup x = s.maps.lookup x
  bytes : ∀ x ∈ s.mappedSet, s'.bytes x = s.bytes x

namespace Keeps

variable {s s' s'' : AddrSpace}

theorem refl (s : AddrSpace) : Keeps s s := ⟨fun _ _ => rfl, fun _ _ => rfl⟩

theorem mapped (h : Keeps s s') : s.mappedSet ⊆ s'.mappedSet := by
  intro x hx
  rw [AddrSpace.mem_mappedSet, h.lookup x hx]
  exact hx

theorem trans (h : Keeps s s') (h' : Keeps s' s'') : Keeps s s'' where
  lookup := fun x hx => (h'.lookup x (h.mapped hx)).trans (h.lookup x hx)
  bytes := fun x hx => (h'.bytes x (h.mapped hx)).trans (h.bytes x hx)

theorem protAt (h : Keeps s s') {x : Nat} (hx : x ∈ s.mappedSet) : s'.protAt x = s.protAt x := by
  rw [AddrSpace.protAt, h.lookup x hx, AddrSpace.protAt]

/-- A new mapping where nothing was. -/
theorem mapFixed {addr len : Nat} (prot : Nat) (h : ValidRange addr len)
    (hfree : Disjoint (Set.Ico addr (addr + pagesUp len)) s.mappedSet) :
    Keeps s (s.mapFixed addr len prot h) := by
  have hout : ∀ x ∈ s.mappedSet, ¬ (addr ≤ x ∧ x < addr + pagesUp len) :=
    fun x hx hin => Set.disjoint_left.1 hfree hin hx
  constructor
  · intro x hx
    exact (s.mapFixed_of_not_mem prot h (hout x hx)).1
  · intro x hx
    exact (s.mapFixed_of_not_mem prot h (hout x hx)).2

/-- Data that is read into it. -/
theorem store {addr len : Nat} {data : List UInt8} (h : Keeps s s') (hlen : data.length ≤ len)
    (hfree : Disjoint (Set.Ico addr (addr + pagesUp len)) s.mappedSet) :
    Keeps s (s'.store addr data) where
  lookup := h.lookup
  bytes := by
    intro x hx
    have hle := le_pagesUp len
    have hout : ¬ (addr ≤ x ∧ x < addr + data.length) := fun hin =>
      Set.disjoint_left.1 hfree ⟨hin.1, by omega⟩ hx
    exact (if_neg hout).trans (h.bytes x hx)

/-- A call that fails there. -/
theorem partly {change : Mapping → Option Mapping} {addr len : Nat} (h : Keeps s s')
    (hpartly : AddrSpace.Partly change s' addr len s'')
    (hfree : ValidRange addr len → Disjoint (Set.Ico addr (addr + pagesUp len)) s.mappedSet) :
    Keeps s s'' where
  lookup := by
    intro x hx
    by_cases hvalid : ValidRange addr len
    · rw [hpartly.lookup_of_not_mem fun hin => Set.disjoint_left.1 (hfree hvalid) hin hx, h.lookup x hx]
    · rw [hpartly.lookup_of_invalid hvalid, h.lookup x hx]
  bytes := by
    intro x hx
    rw [hpartly.bytes, h.bytes x hx]

/-- Its protection. -/
theorem protect {addr len : Nat} (prot : Nat) (h : Keeps s s') (hvalid : ValidRange addr len)
    (hfree : Disjoint (Set.Ico addr (addr + pagesUp len)) s.mappedSet) :
    Keeps s (s'.protect addr len prot hvalid) where
  lookup := by
    intro x hx
    have hout : ¬ (addr ≤ x ∧ x < addr + pagesUp len) := fun hin =>
      Set.disjoint_left.1 hfree hin hx
    rw [AddrSpace.lookup_protect, if_neg hout, h.lookup x hx]
  bytes := h.bytes

end Keeps

/-- What the calls for one record do; if they succeed, their pages are mapped. -/
structure RegionTouched (s : AddrSpace) (ts : List Touch)
    (res : Option (Int × Restorer × InFile)) : Prop where
  fresh : ∀ t ∈ ts, Disjoint t.pages s.mappedSet
  keeps : ∀ out, res = some out → Keeps s out.2.1.space
  leaves : ∀ out, res = some out → out.1 = 0 → ∀ t ∈ ts, t.pages ⊆ out.2.1.space.mappedSet

/-- Calls in a range that was free, which leave what was mapped and have the range mapped. -/
theorem RegionTouched.of_inside {s : AddrSpace} {ts : List Touch}
    {res : Option (Int × Restorer × InFile)} {range : Set Nat} (hfree : Disjoint range s.mappedSet)
    (hts : ∀ t ∈ ts, t.pages ⊆ range)
    (hres : ∀ out, res = some out →
      Keeps s out.2.1.space ∧ range ⊆ out.2.1.space.mappedSet) : RegionTouched s ts res where
  fresh := fun t ht => hfree.mono_left (hts t ht)
  keeps := fun out hout => (hres out hout).1
  leaves := fun out hout _ t ht => (hts t ht).trans (hres out hout).2

/-- A record that is given up at once, or when its mapping has failed. -/
theorem RegionTouched.of_failed {s : AddrSpace} {ts : List Touch} {r : Restorer} {f : InFile}
    (hfresh : ∀ t ∈ ts, Disjoint t.pages s.mappedSet) (hkeeps : Keeps s r.space) :
    RegionTouched s ts (some (-1, r, f)) where
  fresh := hfresh
  keeps := by
    rintro out ⟨⟩
    exact hkeeps
  leaves := by
    rintro out ⟨⟩ hzero
    exact absurd (show (-1 : Int) = 0 from hzero) (by decide)

/-- Every call for a record is in the pages of the record, and these were free. -/
theorem touchRegion_spec {k : Kernel} (hk : k.ListsAll) (area : Area) (r : Restorer) (f : InFile) :
    RegionTouched r.space (touchRegion k area r f).1 (touchRegion k area r f).2 := by
  by_cases hover : anyOverlappingRegion k r.space area = true
  · simp only [touchRegion, if_pos hover]
    exact .of_failed (by simp) (Keeps.refl _)
  have hfree : ValidRange area.addr area.size → _ := fun hvalid =>
    free_of_not_overlapping hk hvalid hover
  have hpages : ∀ fn, ValidRange area.addr area.size →
      (⟨fn, area.addr, area.size⟩ : Touch).pages ⊆
        Set.Ico area.addr (area.addr + pagesUp area.size) :=
    fun fn hvalid => @Touch.pages_subset ⟨fn, area.addr, area.size⟩ hvalid.aligned
  rcases k.mmapFixed_cases r.space (restoreCall area) with
    ⟨_, hfail, hpartly⟩ | ⟨_, hvalid, hmap⟩
  · -- the wrapper hands the failure on
    have hret := mmapWrapper_ret_of_failed r.table (restoreCall area) hfail
    simp only [touchRegion, if_neg hover, if_pos hret]
    refine .of_failed ?_ ((Keeps.refl _).partly hpartly hfree)
    intro t ht
    split at ht
    · next hvalid =>
        obtain rfl := List.mem_singleton.1 ht
        exact (hfree hvalid).mono_left (hpages .mmap hvalid)
    · exact absurd ht List.not_mem_nil
  have hvalid' : ValidRange area.addr area.size := hvalid
  have hfree := hfree hvalid'
  have hpages := fun fn => hpages fn hvalid'
  -- the address space after the first call
  let mapped := r.space.mapFixed area.addr area.size (area.prot ||| protWrite) hvalid'
  have hmapped : Keeps r.space mapped := Keeps.mapFixed _ hvalid' hfree
  have hrange : Set.Ico area.addr (area.addr + pagesUp area.size) ⊆ mapped.mappedSet :=
    fun x hx => (AddrSpace.mem_mappedSet_mapFixed hvalid').2 (Or.inl hx)
  have hmap' : k.mmapFixed r.space (restoreCall area) = (⟨area.addr, .EINVAL, none⟩, mapped) := hmap
  simp only [touchRegion, if_neg hover, hmap', if_pos hvalid']
  split
  · refine .of_inside hfree (by simpa using hpages .mmap) ?_
    rintro out ⟨⟩
    exact ⟨hmapped, hrange⟩
  · cases hread : readAll f area.size with
    | none => exact .of_inside hfree (by simp [hpages]) (by simp)
    | some rd =>
        have hstored : Keeps r.space (mapped.store area.addr rd.data) :=
          hmapped.store (length_data_readAll_le hread) hfree
        simp only
        split
        · refine .of_inside hfree (by simp [hpages]) ?_
          rintro out ⟨⟩
          exact ⟨hstored, hrange⟩
        · refine .of_inside hfree (by simp [hpages]) ?_
          rintro out ⟨⟩
          refine ⟨?_, by rw [k.mappedSet_mprotect]; exact hrange⟩
          rcases k.mprotect_cases (mapped.store area.addr rd.data) area.addr area.size area.prot with
            ⟨_, hpartly⟩ | ⟨h, hprotect⟩
          · exact hstored.partly hpartly fun _ => hfree
          · rw [hprotect]
            exact hstored.protect _ h hfree

/-! ## All records -/

/-- No call is on a page that is mapped in `s`, or on a page of an earlier record. -/
structure Untouched (s : AddrSpace) (tss : List (List Touch)) : Prop where
  fresh : ∀ ts ∈ tss, ∀ t ∈ ts, Disjoint t.pages s.mappedSet
  apart : tss.Pairwise fun ts us => ∀ t ∈ ts, ∀ u ∈ us, Disjoint t.pages u.pages

theorem Untouched.nil (s : AddrSpace) : Untouched s [] := ⟨by simp, List.Pairwise.nil⟩

theorem RegionTouched.untouched {s : AddrSpace} {ts : List Touch}
    {res : Option (Int × Restorer × InFile)} (h : RegionTouched s ts res) : Untouched s [ts] where
  fresh := by simpa using h.fresh
  apart := List.pairwise_singleton _ _

/-- A record, and more of them from where it has left the process. -/
theorem RegionTouched.cons {s : AddrSpace} {ts : List Touch} {out : Int × Restorer × InFile}
    {tss : List (List Touch)} (h : RegionTouched s ts (some out)) (hzero : out.1 = 0)
    (hrest : Untouched out.2.1.space tss) : Untouched s (ts :: tss) where
  fresh := by
    intro us hus t ht
    rcases List.mem_cons.1 hus with rfl | hus
    · exact h.fresh t ht
    · exact (hrest.fresh us hus t ht).mono_right (h.keeps out rfl).mapped
  apart := by
    refine List.pairwise_cons.2 ⟨fun us hus t ht u hu => ?_, hrest.apart⟩
    exact ((hrest.fresh us hus u hu).mono_right (h.leaves out rfl hzero t ht)).symm

theorem touchLoop_spec {k : Kernel} (hk : k.ListsAll) (fuel : Nat) (buf : List UInt8)
    (r : Restorer) (f : InFile) :
    Untouched r.space (touchLoop k fuel buf r f).1 ∧
      ∀ out, (touchLoop k fuel buf r f).2 = some out → Keeps r.space out.2.1.space := by
  induction fuel generalizing buf r f with
  | zero => exact ⟨.nil _, by simp [touchLoop]⟩
  | succ fuel ih =>
      simp only [touchLoop]
      cases hread : readAll f areaSize with
      | none => exact ⟨.nil _, by simp⟩
      | some rd =>
          simp only
          split
          · refine ⟨.nil _, ?_⟩
            rintro out ⟨⟩
            exact Keeps.refl _
          · have hspec := touchRegion_spec hk (decodeArea (rd.data ++ buf.drop rd.data.length)) r
              rd.file
            cases hregion : (touchRegion k
                (decodeArea (rd.data ++ buf.drop rd.data.length)) r rd.file).2 with
            | none => exact ⟨hspec.untouched, by simp⟩
            | some out =>
                rw [hregion] at hspec
                have hkeeps := hspec.keeps out rfl
                rcases out with ⟨rc, r', f'⟩
                simp only
                split
                · next hzero =>
                    rcases ih (rd.data ++ buf.drop rd.data.length) r' f' with ⟨hrest, hlast⟩
                    exact ⟨hspec.cons hzero hrest, fun out hout => hkeeps.trans (hlast out hout)⟩
                · refine ⟨hspec.untouched, ?_⟩
                  rintro out ⟨⟩
                  exact hkeeps

/-- Whatever a restore reads from an image, none of its calls is on a page that was mapped before or
on a page of an earlier record; and if it returns, what was mapped before is as it was. -/
theorem restoreMemoryForImage_untouched {k : Kernel} (hk : k.ListsAll) (img : Image)
    (r : Restorer) :
    Untouched r.space (touchImage k img r).1 ∧
      ∀ rc st r', restoreMemoryForImage k img r = .ok (rc, st, r') → Keeps r.space r'.space := by
  rw [← touchImage_result]
  simp only [touchImage]
  cases img.content with
  | none =>
      refine ⟨.nil _, ?_⟩
      rintro rc st r' ⟨⟩
      exact Keeps.refl _
  | some content =>
      simp only
      cases readAll ⟨content, img.reads⟩ stateSize with
      | none => exact ⟨.nil _, nofun⟩
      | some rd =>
          simp only
          split
          · exact ⟨.nil _, nofun⟩
          · rcases touchLoop_spec hk (rd.file.replies.length + 1) (List.replicate areaSize 0) r
              rd.file with ⟨hloop, hkeeps⟩
            refine ⟨hloop, fun rc st r' hout => ?_⟩
            rcases Exec.bind_eq_ok_iff.1 hout with ⟨out, hres, hpair⟩
            obtain ⟨_, _, rfl⟩ : _ ∧ _ ∧ out.2.1 = r' := by simpa using hpair
            exact hkeeps out (Exec.ofOption_eq_ok_iff.1 hres)

/-- A process with one page mapped. -/
def onePageRestorer : Restorer where
  space :=
    { maps := ⟨[⟨0x10000, 0x11000, AddrSpace.anonymous protRead⟩], by simp, by simp⟩
      bytes := fun _ => 7
      aligned := by
        intro g hg
        obtain rfl := List.mem_singleton.1 hg
        exact ⟨by decide, by decide⟩
      bounded := by
        intro g hg
        obtain rfl := List.mem_singleton.1 hg
        exact ⟨by decide, by decide⟩ }
  table := .initial

/-- An image of a free page and of the heap `mergedHeap`, which starts with the page that is mapped. -/
def overlappingImage : Image :=
  let content := imageBytes .blank ⟨mergedHeapMaps, fun _ => 0⟩ [pageAt 0x40000, mergedHeap]
  ⟨some content, byteReads content⟩

theorem restoreMemoryForImage_untouched_overlapping :
    Untouched onePageRestorer.space (touchImage .plain overlappingImage onePageRestorer).1 ∧
      ∀ rc st r', restoreMemoryForImage .plain overlappingImage onePageRestorer = .ok (rc, st, r') →
        Keeps onePageRestorer.space r'.space :=
  restoreMemoryForImage_untouched Kernel.plain_honest.listsAll overlappingImage onePageRestorer

end CkptRestart
