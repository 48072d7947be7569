import CkptRestart.MemRestore

/-!
# Placed — records in free pages

What the memory becomes when one record after the other is restored, as long as each finds its pages
free (`Placed`) and the kernel does what is asked for it (`Kernel.TakesAll`).  A record need not be a
whole number of pages: the rest of its last page is zero.

A `FileRecord` is a header as it stands in a file, with as many bytes behind it as it asks for.
`restoreMemoryForImages_placed` restores files of such records, and `restoredAll_holds` says what the
memory holds then.
-/

namespace CkptRestart

open Lib

/-! ## One record -/

/-- What the header of a record says, and the bytes behind it. -/
structure SavedRecord where
  area : Area
  data : List UInt8

/-- All addresses of its pages. -/
def Area.pages (area : Area) : Set Nat := Set.Ico area.addr (area.addr + pagesUp area.size)

@[simp] theorem Area.mem_pages {area : Area} {x : Nat} :
    x ∈ area.pages ↔ area.addr ≤ x ∧ x < area.addr + pagesUp area.size := Iff.rfl

def pagesSeg (area : Area) : Seg Mapping :=
  ⟨area.addr, area.addr + pagesUp area.size, AddrSpace.anonymous area.prot⟩

/-- The pages can be mapped, and the bytes are as many as the header says. -/
structure SavedRecord.Valid (e : SavedRecord) : Prop where
  range : ValidRange e.area.addr e.area.size
  length : e.data.length = e.area.size

/-- The process once a record is restored. -/
def Restorer.withRecord (r : Restorer) (e : SavedRecord) : Restorer :=
  if h : ValidRange e.area.addr e.area.size then
    { space := (r.filled e.area h e.data).space.protect e.area.addr e.area.size e.area.prot h
      table := r.table.track ⟨e.area.addr, e.area.size⟩ }
  else r

/-- The kernel does what is asked for the record: it shows the mappings, and refuses neither the new
one nor the protection that the header asks for. -/
structure Kernel.Takes (k : Kernel) (e : SavedRecord) (r : Restorer) : Prop where
  opens : ∃ l, k.procMaps r.space = some l
  mmap : k.refusesMmap r.space (restoreCall e.area) = none
  mprotect : ∀ h : ValidRange e.area.addr e.area.size,
    k.refusesMprotect (r.filled e.area h e.data).space e.area.addr e.area.size e.area.prot = none

theorem Kernel.plain_takes (e : SavedRecord) (r : Restorer) : Kernel.plain.Takes e r :=
  ⟨⟨listEach r.space, rfl⟩, rfl, fun _ => rfl⟩

namespace SavedRecord

variable {e : SavedRecord} {r : Restorer}

theorem Valid.lt_end (he : e.Valid) : e.area.addr < e.area.addr + pagesUp e.area.size :=
  he.range.lt_end

theorem Valid.withRecord_eq (he : e.Valid) (r : Restorer) :
    r.withRecord e = ⟨(r.filled e.area he.range e.data).space.protect e.area.addr e.area.size
      e.area.prot he.range, r.table.track ⟨e.area.addr, e.area.size⟩⟩ := dif_pos he.range

/-- In free pages it is one more mapping. -/
theorem Valid.segs_withRecord (he : e.Valid)
    (hfree : r.space.maps.Free e.area.addr (e.area.addr + pagesUp e.area.size)) :
    (r.withRecord e).space.maps.segs = pagesSeg e.area :: r.space.maps.segs := by
  have hnew : (r.filled e.area he.range e.data).space.maps.segs =
      ⟨e.area.addr, e.area.addr + pagesUp e.area.size,
        AddrSpace.anonymous (e.area.prot ||| protWrite)⟩ :: r.space.maps.segs :=
    RangeMap.segs_insert_of_free _ he.lt_end hfree
  rw [he.withRecord_eq]
  exact RangeMap.segs_modify_head hnew rfl

theorem Valid.bytes_withRecord (he : e.Valid) (r : Restorer) (x : Nat) :
    (r.withRecord e).space.bytes x =
      if e.area.addr ≤ x ∧ x < e.area.addr + pagesUp e.area.size then
        e.data.getD (x - e.area.addr) 0
      else r.space.bytes x := by
  have hlen := he.length
  have hpages := le_pagesUp e.area.size
  rw [he.withRecord_eq]
  show (if e.area.addr ≤ x ∧ x < e.area.addr + e.data.length then e.data.getD (x - e.area.addr) 0
    else if e.area.addr ≤ x ∧ x < e.area.addr + pagesUp e.area.size then 0
    else r.space.bytes x) = _
  by_cases hdata : e.area.addr ≤ x ∧ x < e.area.addr + e.data.length
  · have hin : e.area.addr ≤ x ∧ x < e.area.addr + pagesUp e.area.size := by omega
    rw [if_pos hdata, if_pos hin]
  · rw [if_neg hdata]
    by_cases hin : e.area.addr ≤ x ∧ x < e.area.addr + pagesUp e.area.size
    · -- behind the data, the last page is zero
      have hbehind : e.data.length ≤ x - e.area.addr := by omega
      rw [if_pos hin, if_pos hin, List.getD_eq_getElem?_getD, List.getElem?_eq_none hbehind]
      rfl
    · rw [if_neg hin, if_neg hin]

theorem Valid.lookup_withRecord (he : e.Valid) (r : Restorer) (x : Nat) :
    (r.withRecord e).space.maps.lookup x =
      if e.area.addr ≤ x ∧ x < e.area.addr + pagesUp e.area.size then
        some (AddrSpace.anonymous e.area.prot)
      else r.space.maps.lookup x := by
  rw [he.withRecord_eq]
  show ((r.filled e.area he.range e.data).space.protect e.area.addr e.area.size e.area.prot
    he.range).maps.lookup x = _
  rw [AddrSpace.lookup_protect]
  by_cases hin : e.area.addr ≤ x ∧ x < e.area.addr + pagesUp e.area.size
  · rw [if_pos hin, if_pos hin]
    simp only [Restorer.filled, AddrSpace.maps_store, AddrSpace.lookup_mapFixed, if_pos hin]
    rfl
  · rw [if_neg hin, if_neg hin]
    simp only [Restorer.filled, AddrSpace.maps_store, AddrSpace.lookup_mapFixed, if_neg hin]

/-- Once it is restored, its pages are taken. -/
theorem Valid.free_withRecord_iff (he : e.Valid)
    (hfree : r.space.maps.Free e.area.addr (e.area.addr + pagesUp e.area.size)) {d : SavedRecord}
    (hd : d.Valid) :
    (r.withRecord e).space.maps.Free d.area.addr (d.area.addr + pagesUp d.area.size) ↔
      Disjoint e.area.pages d.area.pages ∧
        r.space.maps.Free d.area.addr (d.area.addr + pagesUp d.area.size) := by
  have helt := he.lt_end
  have hdlt := hd.lt_end
  have hapart : (pagesSeg e.area).Apart d.area.addr (d.area.addr + pagesUp d.area.size) ↔
      Disjoint e.area.pages d.area.pages := by
    rw [Area.pages, Area.pages, Set.Ico_disjoint_Ico]
    simp only [Seg.Apart, pagesSeg]
    omega
  simp only [RangeMap.Free, he.segs_withRecord hfree, List.forall_mem_cons, hapart]

end SavedRecord

/-- A range that can be mapped and that no listed area overlaps is free, up to the end of its last
page: the areas start and end with a page. -/
theorem free_of_not_overlapping {k : Kernel} (hk : k.ListsAll) {s : AddrSpace} {area : Area}
    (hvalid : ValidRange area.addr area.size)
    (hover : ¬ anyOverlappingRegion k s area = true) :
    Disjoint (Set.Ico area.addr (area.addr + pagesUp area.size)) s.mappedSet := by
  rw [Set.disjoint_left]
  rintro x ⟨hlow, hhigh⟩ hx
  cases hmaps : k.procMaps s with
  | none => simp [anyOverlappingRegion, hmaps] at hover
  | some l =>
      rcases hk s l hmaps x hx with ⟨p, hp, hxlow, hxhigh⟩
      have hroom : area.addr + area.size < wordSize :=
        lt_of_le_of_lt (Nat.add_le_add_left (le_pagesUp _) _) hvalid.room
      have happart : ¬ doAreasOverlap p.addr p.size area.addr area.size = true := by
        intro h
        exact hover (by simpa [anyOverlappingRegion, hmaps] using ⟨p, hp, h⟩)
      rw [l.doAreasOverlap_iff hp hroom] at happart
      rcases (l.aligned p hp).1 with ⟨i, hi⟩
      rcases hvalid.aligned with ⟨j, hj⟩
      have hpos := hvalid.pos
      unfold pagesUp pageSize at *
      omega

/-- Where nothing is mapped, no listed area overlaps. -/
theorem anyOverlappingRegion_of_free {s : AddrSpace} {l : MapsSnapshot} (hlists : Lists s l)
    {k : Kernel} (hl : k.procMaps s = some l) {area : Area}
    (hvalid : ValidRange area.addr area.size)
    (hfree : s.maps.Free area.addr (area.addr + pagesUp area.size)) :
    anyOverlappingRegion k s area = false := by
  have hroom : area.addr + area.size < wordSize :=
    lt_of_le_of_lt (Nat.add_le_add_left (le_pagesUp _) _) hvalid.room
  simp only [anyOverlappingRegion, hl]
  refine List.any_eq_false.2 fun p hp hover => ?_
  rw [l.doAreasOverlap_iff hp hroom] at hover
  -- the larger of the two starts is an address of both
  have hpos := hvalid.pos
  have hpages := le_pagesUp area.size
  have hne := hlists.nonempty p hp
  rcases hlists.sound p hp (max p.addr area.addr) ⟨by omega, by omega⟩ with ⟨g, hg, hx, _⟩
  have hapart := hfree g hg
  simp only [Seg.Apart, Seg.Has] at hapart hx
  omega

/-- The check is about the whole pages of the record, although it looks at its bytes only. -/
theorem anyOverlappingRegion_eq_false_iff {k : Kernel} (hk : k.Honest) {s : AddrSpace} {area : Area}
    (hvalid : ValidRange area.addr area.size) :
    anyOverlappingRegion k s area = false ↔
      (∃ l, k.procMaps s = some l) ∧ s.maps.Free area.addr (area.addr + pagesUp area.size) := by
  constructor
  · intro hnone
    have hover : ¬ anyOverlappingRegion k s area = true := by simp [hnone]
    have hdis := free_of_not_overlapping hk.listsAll hvalid hover
    refine ⟨?_, (RangeMap.free_iff hvalid.lt_end).2 fun x hlo hhi => ?_⟩
    · cases hmaps : k.procMaps s with
      | none => simp [anyOverlappingRegion, hmaps] at hnone
      | some l => exact ⟨l, rfl⟩
    · by_contra hmapped
      exact Set.disjoint_left.1 hdis ⟨hlo, hhi⟩ hmapped
  · rintro ⟨⟨l, hl⟩, hfree⟩
    exact anyOverlappingRegion_of_free (hk s l hl) hl hvalid hfree

/-- What was just mapped can be protected if the kernel does not refuse it. -/
theorem Kernel.Takes.protectRecord {k : Kernel} {e : SavedRecord} {r : Restorer}
    (htakes : k.Takes e r) (he : e.Valid) :
    protectRecord k e.area (r.filled e.area he.range e.data) = (0, r.withRecord e) := by
  have hmapped : (r.filled e.area he.range e.data).space.mapped e.area.addr e.area.size = true :=
    AddrSpace.mapped_mapFixed r.space (e.area.prot ||| protWrite) he.range
  have hprotect : k.mprotect (r.filled e.area he.range e.data).space e.area.addr e.area.size
      e.area.prot = (0, (r.filled e.area he.range e.data).space.protect e.area.addr e.area.size
        e.area.prot he.range) := by
    simp [Kernel.mprotect, htakes.mprotect he.range, he.range, hmapped]
  rw [he.withRecord_eq]
  simp only [CkptRestart.protectRecord, hprotect]
  rfl

/-- A record in free pages, for which the kernel does what is asked, is restored. -/
theorem Kernel.Takes.restoreMemoryRegion {k : Kernel} (hk : k.Honest) {e : SavedRecord} {r : Restorer}
    (htakes : k.Takes e r) (he : e.Valid)
    (hfree : r.space.maps.Free e.area.addr (e.area.addr + pagesUp e.area.size)) {f : InFile}
    {rest : List UInt8} (hstream : f.stream = e.data ++ rest) {n : Nat} (hspare : f.Spare n) :
    ∃ f', CkptRestart.restoreMemoryRegion k e.area r f = some (0, r.withRecord e, f') ∧
      f'.stream = rest ∧ f'.Spare n := by
  have hthere : e.area.size ≤ f.stream.length := by
    rw [hstream, List.length_append, he.length]
    exact Nat.le_add_right _ _
  rcases restoreMemoryRegion_full k r hspare hthere
    ((anyOverlappingRegion_eq_false_iff hk he.range).2 ⟨htakes.opens, hfree⟩)
    ⟨htakes.mmap, he.range⟩ with ⟨hvalid, f', hres, hrest, hspare'⟩
  rw [hstream, List.take_left' he.length, htakes.protectRecord he] at hres
  rw [hstream, List.drop_left' he.length] at hrest
  exact ⟨f', hres, hrest, hspare'⟩

/-- Any record whose bytes are there fails, or is of this kind. -/
theorem restoreMemoryRegion_outcome {k : Kernel} (hk : k.Honest) {area : Area} (r : Restorer)
    {f : InFile} {n : Nat} (hspare : f.Spare n) (hthere : area.size ≤ f.stream.length) :
    (∃ r' f', restoreMemoryRegion k area r f = some (-1, r', f')) ∨
      (ValidRange area.addr area.size ∧
        r.space.maps.Free area.addr (area.addr + pagesUp area.size) ∧
        k.Takes ⟨area, f.stream.take area.size⟩ r) := by
  rcases restoreMemoryRegion_cases k area r f with ⟨_, r', hfail⟩ | ⟨hover, hgrants, hvalid, _⟩
  · exact .inl ⟨r', f, hfail⟩
  obtain ⟨hopens, hfree⟩ := (anyOverlappingRegion_eq_false_iff hk hvalid).1 hover
  rcases restoreMemoryRegion_full k r hspare hthere hover hgrants with ⟨hvalid', f', hres, _, _⟩
  have hrc := (protectRecord_filled k area r hvalid' (f.stream.take area.size)).2
  by_cases hprotect : k.refusesMprotect (r.filled area hvalid' (f.stream.take area.size)).space
      area.addr area.size area.prot = none
  · exact .inr ⟨hvalid, hfree, ⟨hopens, hgrants.1, fun _ => hprotect⟩⟩
  · rw [hrc, if_neg hprotect] at hres
    exact .inl ⟨_, f', hres⟩

/-! ## All records -/

/-- The records restored one after the other. -/
def restoredAll (es : List SavedRecord) (r : Restorer) : Restorer := es.foldl Restorer.withRecord r

@[simp] theorem restoredAll_nil (r : Restorer) : restoredAll [] r = r := rfl

@[simp] theorem restoredAll_cons (e : SavedRecord) (es : List SavedRecord) (r : Restorer) :
    restoredAll (e :: es) r = restoredAll es (r.withRecord e) := rfl

theorem restoredAll_append (ds es : List SavedRecord) (r : Restorer) :
    restoredAll (ds ++ es) r = restoredAll es (restoredAll ds r) := List.foldl_append

/-- The kernel does what is asked for each record in the memory that the ones before it leave. -/
def Kernel.TakesAll (k : Kernel) : List SavedRecord → Restorer → Prop
  | [], _ => True
  | e :: es, r => k.Takes e r ∧ k.TakesAll es (r.withRecord e)

theorem Kernel.takesAll_append {k : Kernel} {ds es : List SavedRecord} {r : Restorer} :
    k.TakesAll (ds ++ es) r ↔ k.TakesAll ds r ∧ k.TakesAll es (restoredAll ds r) := by
  induction ds generalizing r with
  | nil => simp [TakesAll]
  | cons d ds ih =>
      rw [List.cons_append, TakesAll, TakesAll, ih, restoredAll_cons, and_assoc]

theorem Kernel.plain_takesAll (es : List SavedRecord) (r : Restorer) :
    Kernel.plain.TakesAll es r := by
  induction es generalizing r with
  | nil => trivial
  | cons e es ih => exact ⟨Kernel.plain_takes e r, ih _⟩

/-- The records can be mapped, nothing is mapped in their pages, and no page is in two of them. -/
structure Placed (s : AddrSpace) (es : List SavedRecord) : Prop where
  valid : ∀ e ∈ es, e.Valid
  free : ∀ e ∈ es, s.maps.Free e.area.addr (e.area.addr + pagesUp e.area.size)
  disjoint : es.Pairwise fun d e => Disjoint d.area.pages e.area.pages

theorem placed_nil (s : AddrSpace) : Placed s [] := ⟨by simp, by simp, .nil⟩

theorem placed_cons {r : Restorer} {e : SavedRecord} {es : List SavedRecord} :
    Placed r.space (e :: es) ↔
      e.Valid ∧ r.space.maps.Free e.area.addr (e.area.addr + pagesUp e.area.size) ∧
        Placed (r.withRecord e).space es := by
  constructor
  · intro h
    have he := h.valid e (by simp)
    have hfree := h.free e (by simp)
    rcases List.pairwise_cons.1 h.disjoint with ⟨hfirst, hrest⟩
    have hvalid : ∀ d ∈ es, d.Valid := fun d hd => h.valid d (List.mem_cons_of_mem _ hd)
    exact ⟨he, hfree, hvalid, fun d hd => (he.free_withRecord_iff hfree (hvalid d hd)).2
      ⟨hfirst d hd, h.free d (List.mem_cons_of_mem _ hd)⟩, hrest⟩
  · -- pages that are free once the first record is there are apart from its own
    rintro ⟨he, hfree, h⟩
    have happart : ∀ d ∈ es, Disjoint e.area.pages d.area.pages ∧
        r.space.maps.Free d.area.addr (d.area.addr + pagesUp d.area.size) :=
      fun d hd => (he.free_withRecord_iff hfree (h.valid d hd)).1 (h.free d hd)
    exact ⟨List.forall_mem_cons.2 ⟨he, h.valid⟩,
      List.forall_mem_cons.2 ⟨hfree, fun d hd => (happart d hd).2⟩,
      List.pairwise_cons.2 ⟨fun d hd => (happart d hd).1, h.disjoint⟩⟩

theorem placed_append {r : Restorer} {ds es : List SavedRecord} :
    Placed r.space (ds ++ es) ↔ Placed r.space ds ∧ Placed (restoredAll ds r).space es := by
  induction ds generalizing r with
  | nil => simp [placed_nil]
  | cons d ds ih =>
      rw [List.cons_append, placed_cons, placed_cons, ih, restoredAll_cons, and_assoc, and_assoc]

theorem Placed.perm {s : AddrSpace} {ds es : List SavedRecord} (hperm : ds.Perm es)
    (h : Placed s ds) : Placed s es where
  valid := fun e he => h.valid e (hperm.mem_iff.2 he)
  free := fun e he => h.free e (hperm.mem_iff.2 he)
  disjoint := (hperm.pairwise_iff fun hab => hab.symm).1 h.disjoint

/-- What the memory holds once the records are restored: their bytes and then zeros, under their
protection; everything else is as it was. -/
structure Holds (s s' : AddrSpace) (es : List SavedRecord) : Prop where
  inside : ∀ e ∈ es, ∀ x ∈ e.area.pages,
    s'.bytes x = e.data.getD (x - e.area.addr) 0 ∧ s'.protAt x = some (e.area.prot % 8)
  outside : ∀ x, (∀ e ∈ es, x ∉ e.area.pages) →
    s'.bytes x = s.bytes x ∧ s'.maps.lookup x = s.maps.lookup x

theorem Holds.protAt_outside {s s' : AddrSpace} {es : List SavedRecord} (h : Holds s s' es) {x : Nat}
    (hx : ∀ e ∈ es, x ∉ e.area.pages) : s'.protAt x = s.protAt x :=
  congrArg (Option.map Mapping.prot) (h.outside x hx).2

theorem restoredAll_holds {es : List SavedRecord} {r : Restorer} (h : Placed r.space es) :
    Holds r.space (restoredAll es r).space es := by
  induction es generalizing r with
  | nil => exact ⟨by simp, fun x _ => ⟨rfl, rfl⟩⟩
  | cons e es ih =>
      have hdis := (List.pairwise_cons.1 h.disjoint).1
      obtain ⟨he, _, hplaced⟩ := placed_cons.1 h
      have hrest := ih hplaced
      rw [restoredAll_cons]
      constructor
      · intro d hd x hx
        rcases List.mem_cons.1 hd with rfl | hd
        · -- the later records leave the first one alone
          rcases hrest.outside x fun c hc hxc => Set.disjoint_left.1 (hdis c hc) hx hxc with
            ⟨hbytes, hlookup⟩
          refine ⟨hbytes.trans ((he.bytes_withRecord r x).trans (if_pos hx)), ?_⟩
          have hmapped := hlookup.trans ((he.lookup_withRecord r x).trans (if_pos hx))
          exact congrArg (Option.map Mapping.prot) hmapped
        · exact hrest.inside d hd x hx
      · intro x hx
        have hfirst : ¬ (e.area.addr ≤ x ∧ x < e.area.addr + pagesUp e.area.size) := hx e (by simp)
        rcases hrest.outside x fun c hc => hx c (List.mem_cons_of_mem _ hc) with ⟨hbytes, hlookup⟩
        exact ⟨hbytes.trans ((he.bytes_withRecord r x).trans (if_neg hfirst)),
          hlookup.trans ((he.lookup_withRecord r x).trans (if_neg hfirst))⟩

/-- Each of the records is a mapping of its own, in front of those that were there. -/
theorem segs_restoredAll {es : List SavedRecord} {r : Restorer} (h : Placed r.space es) :
    (restoredAll es r).space.maps.segs =
      (es.map fun e => pagesSeg e.area).reverse ++ r.space.maps.segs := by
  induction es generalizing r with
  | nil => rfl
  | cons e es ih =>
      obtain ⟨he, hfree, hplaced⟩ := placed_cons.1 h
      rw [restoredAll_cons, ih hplaced, he.segs_withRecord hfree]
      simp

def regionOf (a : Area) : MmapInfo := ⟨a.addr, a.size⟩

theorem ring_restoredAll {es : List SavedRecord} (h : ∀ e ∈ es, e.Valid) (r : Restorer) :
    (restoredAll es r).table.ring =
      r.table.ring.pushAll maxTrack (es.map fun e => regionOf e.area) := by
  induction es generalizing r with
  | nil => rfl
  | cons e es ih =>
      obtain ⟨he, hes⟩ := List.forall_mem_cons.1 h
      rw [restoredAll_cons, ih hes, he.withRecord_eq]
      rfl

/-- Fewer than `MAX_TRACK` records leave exactly their regions in the list. -/
theorem mmappedList_restoredAll {es : List SavedRecord} (h : ∀ e ∈ es, e.Valid)
    (hlen : es.length < maxTrack) {r : Restorer} (htable : r.table = .initial) :
    mmappedList (restoredAll es r).table = es.map fun e => regionOf e.area := by
  rw [mmappedList_eq_valid, ring_restoredAll h, htable,
    RingLog.valid_pushAll MmapTable.initial_inBounds rfl]
  exact RingLog.recent_of_lt (by simpa using hlen)

/-! ## The records of a file -/

/-- A header as it stands in the file, and as many bytes behind it as it asks for. -/
structure FileRecord where
  header : List UInt8
  data : List UInt8
  header_length : header.length = areaSize
  data_length : data.length = (decodeArea header).size

namespace FileRecord

def saved (c : FileRecord) : SavedRecord := ⟨decodeArea c.header, c.data⟩

def bytes (c : FileRecord) : List UInt8 := c.header ++ c.data

theorem length_le_flatMap (cs : List FileRecord) :
    cs.length ≤ (cs.flatMap FileRecord.bytes).length := by
  induction cs with
  | nil => exact le_rfl
  | cons c cs ih =>
      have hpos : 0 < areaSize := by decide
      simp only [List.flatMap_cons, List.length_append, FileRecord.bytes, c.header_length,
        List.length_cons]
      omega

end FileRecord

/-- A round of the loop that reads a whole header. -/
theorem restoreLoop_round {k : Kernel} {header : List UInt8} (hheader : header.length = areaSize)
    {r : Restorer} {f : InFile} {rest : List UInt8} {n : Nat} (hstream : f.stream = header ++ rest)
    (hspare : f.Spare n) (fuel : Nat) {buf : List UInt8} (hbuf : buf.length = areaSize) :
    ∃ f', f'.stream = rest ∧ f'.Spare n ∧
      restoreLoop k (fuel + 1) buf r f =
        (restoreMemoryRegion k (decodeArea header) r f').bind fun out =>
          if out.1 = 0 then restoreLoop k fuel header out.2.1 out.2.2 else some out := by
  rcases hspare.readAll_front hstream hheader with ⟨f', hread, hstream', hspare'⟩
  have hnonzero : toSigned areaSize ≠ 0 := by decide
  have hwhole : header ++ buf.drop header.length = header := by
    rw [List.drop_eq_nil_of_le (by rw [hbuf, hheader]), List.append_nil]
  exact ⟨f', hstream', hspare', by simp [restoreLoop, hread, hnonzero, hwhole]⟩

/-- At the end of the file the loop ends. -/
theorem restoreLoop_end {k : Kernel} {f : InFile} {n : Nat} (hspare : f.Spare n)
    (hend : f.stream = []) (fuel : Nat) (buf : List UInt8) (r : Restorer) :
    ∃ f', restoreLoop k (fuel + 1) buf r f = some (0, r, f') := by
  have hready : f.Ready := ⟨hspare.prompt, lt_of_le_of_lt (Nat.le_add_right _ n) hspare.enough⟩
  rcases hready.readAll_end hend (areaSize - 1) with ⟨f', hread⟩
  have hread' : readAll f areaSize = some ⟨0, [], f'⟩ := hread
  exact ⟨f', by simp [restoreLoop, hread']⟩

/-- What the file says after its context: the records are restored one after the other, or one of them
fails. -/
theorem restoreLoop_records {k : Kernel} (hk : k.Honest) {cs : List FileRecord} {r : Restorer}
    {f : InFile} (hstream : f.stream = cs.flatMap FileRecord.bytes) {n : Nat} (hspare : f.Spare n)
    {fuel : Nat} (hfuel : cs.length < fuel) {buf : List UInt8} (hbuf : buf.length = areaSize) :
    (Placed r.space (cs.map FileRecord.saved) → k.TakesAll (cs.map FileRecord.saved) r →
      ∃ f', restoreLoop k fuel buf r f = some (0, restoredAll (cs.map FileRecord.saved) r, f')) ∧
    (¬ (Placed r.space (cs.map FileRecord.saved) ∧ k.TakesAll (cs.map FileRecord.saved) r) →
      ∃ r' f', restoreLoop k fuel buf r f = some (-1, r', f')) := by
  induction cs generalizing r f fuel buf with
  | nil =>
      cases fuel with
      | zero => exact absurd hfuel (Nat.not_lt_zero _)
      | succ fuel =>
          exact ⟨fun _ _ => restoreLoop_end hspare (by simpa using hstream) fuel buf r,
            fun hno => absurd ⟨placed_nil _, trivial⟩ hno⟩
  | cons c cs ih =>
      cases fuel with
      | zero => exact absurd hfuel (Nat.not_lt_zero _)
      | succ fuel =>
          rw [List.flatMap_cons, FileRecord.bytes, List.append_assoc] at hstream
          rcases restoreLoop_round (k := k) (r := r) c.header_length hstream hspare fuel hbuf with
            ⟨f₁, hstream₁, hspare₁, hround⟩
          have hdata : c.data.length = c.saved.area.size := c.data_length
          have hthere : c.saved.area.size ≤ f₁.stream.length := by
            rw [hstream₁, List.length_append, hdata]
            exact Nat.le_add_right _ _
          have hround : restoreLoop k (fuel + 1) buf r f =
              (restoreMemoryRegion k c.saved.area r f₁).bind fun out =>
                if out.1 = 0 then restoreLoop k fuel c.header out.2.1 out.2.2 else some out := hround
          simp only [List.map_cons, placed_cons, Kernel.TakesAll, restoredAll_cons]
          by_cases hone : c.saved.Valid ∧ r.space.maps.Free c.saved.area.addr
              (c.saved.area.addr + pagesUp c.saved.area.size) ∧ k.Takes c.saved r
          · -- the record is restored, and the others decide
            obtain ⟨hvalid, hfree, htakes⟩ := hone
            rcases htakes.restoreMemoryRegion hk hvalid hfree hstream₁ hspare₁ with
              ⟨f₂, hregion, hstream₂, hspare₂⟩
            rcases ih (r := r.withRecord c.saved) hstream₂ hspare₂ (Nat.lt_of_succ_lt_succ hfuel)
              c.header_length with ⟨hplaced, hfails⟩
            simp only [hround, hregion, Option.bind_some, if_true]
            exact ⟨fun h ht => hplaced h.2.2 ht.2,
              fun hno => hfails fun h => hno ⟨⟨hvalid, hfree, h.1⟩, htakes, h.2⟩⟩
          · refine ⟨fun h ht => absurd ⟨h.1, h.2.1, ht.1⟩ hone, fun _ => ?_⟩
            rcases restoreMemoryRegion_outcome hk r hspare₁ hthere with
              ⟨r', f', hfail⟩ | ⟨hvalid, hfree, htakes⟩
            · exact ⟨r', f', by simp [hround, hfail]⟩
            · rw [hstream₁, List.take_left' hdata] at htakes
              exact absurd ⟨⟨hvalid, hdata⟩, hfree, htakes⟩ hone

/-- A file that begins with a context, whatever is in it. -/
structure ImageFile where
  context : List UInt8
  records : List FileRecord
  context_length : context.length = stateSize

namespace ImageFile

def bytes (file : ImageFile) : List UInt8 := file.context ++ file.records.flatMap FileRecord.bytes

def st (file : ImageFile) : CkptRestartState := decodeState file.context

def saved (file : ImageFile) : List SavedRecord := file.records.map FileRecord.saved

end ImageFile

/-- More rounds than there are bytes. -/
theorem InFile.Spare.length_lt {f : InFile} {n : Nat} (h : f.Spare n) :
    f.stream.length < f.replies.length + 1 := by
  have henough := h.enough
  have hreplies := strength_le_length f.replies
  omega

/-- The context is read, and the records behind it are left to `restoreMemory`. -/
theorem restoreMemoryForImage_context (k : Kernel) {img : Image} {context rest : List UInt8}
    (hcontext : context.length = stateSize) (hcontent : img.content = some (context ++ rest))
    {n : Nat} (hspare : (⟨context ++ rest, img.reads⟩ : InFile).Spare n) (r : Restorer) :
    ∃ f, f.stream = rest ∧ f.Spare n ∧ restoreMemoryForImage k img r =
      (Exec.ofOption (restoreMemory k r f) >>= fun out =>
        pure (if out.1 < 0 then -1 else 0, decodeState context, out.2.1)) := by
  rcases hspare.readAll_front rfl hcontext with ⟨f, hread, hstream, hspare'⟩
  have hsize : toSigned stateSize = stateSize := by decide
  exact ⟨f, hstream, hspare', by simp [restoreMemoryForImage, hcontent, hread, hsize]⟩

/-- A file of records is restored exactly if they find their pages free and the kernel does what is
asked. -/
theorem restoreMemoryForImage_records {k : Kernel} (hk : k.Honest) {file : ImageFile} {r : Restorer}
    {img : Image} (hcontent : img.content = some file.bytes)
    {n : Nat} (hspare : (⟨file.bytes, img.reads⟩ : InFile).Spare n) :
    (Placed r.space file.saved → k.TakesAll file.saved r →
      restoreMemoryForImage k img r = .ok (0, file.st, restoredAll file.saved r)) ∧
    (¬ (Placed r.space file.saved ∧ k.TakesAll file.saved r) →
      ∃ r', restoreMemoryForImage k img r = .ok (-1, file.st, r')) := by
  rcases restoreMemoryForImage_context k file.context_length hcontent hspare r with
    ⟨f, hstream, hspare', hrun⟩
  have hfuel : file.records.length < f.replies.length + 1 := by
    have hbytes := FileRecord.length_le_flatMap file.records
    rw [← hstream] at hbytes
    exact lt_of_le_of_lt hbytes hspare'.length_lt
  rcases restoreLoop_records hk (r := r) hstream hspare' hfuel
    (List.length_replicate : (List.replicate areaSize (0 : UInt8)).length = areaSize) with
    ⟨hplaced, hfails⟩
  rw [hrun]
  constructor
  · intro h ht
    obtain ⟨f', hloop⟩ := hplaced h ht
    simp [restoreMemory, hloop, ImageFile.st, ImageFile.saved]
  · intro hno
    obtain ⟨r', f', hloop⟩ := hfails hno
    exact ⟨r', by simp [restoreMemory, hloop, ImageFile.st]⟩

/-! ## All files -/

/-- The files are what the images hold. -/
def Contents (imgs : List Image) (files : List ImageFile) : Prop :=
  imgs.map Image.content = files.map fun file => some file.bytes

def fileRecords (files : List ImageFile) : List SavedRecord := files.flatMap ImageFile.saved

theorem fileRecords_cons (file : ImageFile) (files : List ImageFile) :
    fileRecords (file :: files) = file.saved ++ fileRecords files := rfl

/-- Of several files, too. -/
theorem restoreMemoryForImages_records {k : Kernel} (hk : k.Honest) {imgs : List Image}
    (hreads : ∀ img ∈ imgs, ∀ content, img.content = some content →
      (⟨content, img.reads⟩ : InFile).Ready) {files : List ImageFile} (hfiles : Contents imgs files)
    {r : Restorer} :
    (Placed r.space (fileRecords files) → k.TakesAll (fileRecords files) r →
      restoreMemoryForImages k imgs r =
        .ok (0, files.map ImageFile.st, restoredAll (fileRecords files) r)) ∧
    (¬ (Placed r.space (fileRecords files) ∧ k.TakesAll (fileRecords files) r) →
      ∃ sts r', restoreMemoryForImages k imgs r = .ok (-1, sts, r')) := by
  induction files generalizing imgs r with
  | nil =>
      obtain rfl : imgs = [] := by simpa [Contents] using hfiles
      exact ⟨fun _ _ => rfl, fun hno => absurd ⟨placed_nil _, trivial⟩ hno⟩
  | cons file files ih =>
      cases imgs with
      | nil => simp [Contents] at hfiles
      | cons img imgs =>
          obtain ⟨hcontent, hrest⟩ : img.content = some file.bytes ∧ Contents imgs files := by
            simpa [Contents] using hfiles
          have hspare := InFile.ready_iff_spare.1 (hreads img (by simp) _ hcontent)
          rcases restoreMemoryForImage_records hk (r := r) hcontent hspare with ⟨hplaced, hfails⟩
          rw [fileRecords_cons, placed_append, Kernel.takesAll_append, restoredAll_append]
          by_cases hone : Placed r.space file.saved ∧ k.TakesAll file.saved r
          · -- the first file is restored, and the others decide, in the memory that it leaves
            have hrun := hplaced hone.1 hone.2
            rcases ih (fun i hi => hreads i (List.mem_cons_of_mem _ hi)) hrest
              (r := restoredAll file.saved r) with ⟨hlater, hlaterFails⟩
            constructor
            · intro h ht
              simp [restoreMemoryForImages, hrun, hlater h.2 ht.2]
            · intro hno
              obtain ⟨sts, r', hfail⟩ := hlaterFails fun h => hno ⟨⟨hone.1, h.1⟩, hone.2, h.2⟩
              exact ⟨file.st :: sts, r', by simp [restoreMemoryForImages, hrun, hfail]⟩
          · refine ⟨fun h ht => absurd ⟨h.1, ht.1⟩ hone, fun _ => ?_⟩
            obtain ⟨r', hfail⟩ := hfails hone
            exact ⟨[file.st], r', by simp [restoreMemoryForImages, hfail]⟩

theorem restoreMemoryForImages_placed {k : Kernel} (hk : k.Honest) {imgs : List Image}
    (hreads : ∀ img ∈ imgs, ∀ content, img.content = some content →
      (⟨content, img.reads⟩ : InFile).Ready) {files : List ImageFile} (hfiles : Contents imgs files)
    {r : Restorer} (hplaced : Placed r.space (fileRecords files))
    (htakes : k.TakesAll (fileRecords files) r) :
    restoreMemoryForImages k imgs r =
      .ok (0, files.map ImageFile.st, restoredAll (fileRecords files) r) :=
  (restoreMemoryForImages_records hk hreads hfiles).1 hplaced htakes

end CkptRestart
