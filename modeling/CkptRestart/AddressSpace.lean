import CkptRestart.MmapWrapper
import CkptRestart.Lib.RangeMap

/-!
# AddressSpace — mappings, bytes, and the kernel's answers

The memory of a process as the kernel keeps it: protections on page-aligned ranges (a
`Lib.RangeMap`) and a byte at every address.  `mapFixed`, `protect` and `store` are what `mmap`,
`mprotect` and `read` do to it.

What the kernel decides on its own is a parameter (`Kernel`): whether it refuses a call, how much of
its work a call has done when it fails, and how it cuts the mappings into the areas of
`/proc/self/maps`.  `Lists` is what its documentation promises of these areas; adjacent mappings of
one kind may be listed as one area.
-/

namespace CkptRestart

open Lib

/-! ## Address spaces -/

/-- The protection of a mapping and the name it is listed with. -/
structure Mapping where
  prot : Nat
  name : List UInt8
  prot_lt : prot < 8
  name_length : name.length < 1024
  name_nul : (0 : UInt8) ∉ name

structure AddrSpace where
  maps : RangeMap Mapping
  bytes : Nat → UInt8
  aligned : ∀ s ∈ maps.segs, PageAligned s.lo ∧ PageAligned s.hi
  bounded : ∀ s ∈ maps.segs, s.lo < wordSize ∧ s.hi < wordSize

/-- The length of a mapping of `n` bytes. -/
def pagesUp (n : Nat) : Nat := (n + pageSize - 1) / pageSize * pageSize

theorem pagesUp_of_aligned {n : Nat} (h : PageAligned n) : pagesUp n = n := by
  rcases h with ⟨k, rfl⟩
  unfold pagesUp pageSize
  omega

theorem le_pagesUp (n : Nat) : n ≤ pagesUp n := by
  unfold pagesUp pageSize
  omega

theorem pageAligned_pagesUp (n : Nat) : PageAligned (pagesUp n) := Nat.dvd_mul_left _ _

theorem pagesUp_le {n m : Nat} (hn : n ≤ m) (hm : PageAligned m) : pagesUp n ≤ m := by
  rcases hm with ⟨k, rfl⟩
  unfold pagesUp pageSize at *
  omega

/-- Up to the last page of the address space, `ROUND_UP` does not wrap. -/
theorem roundUp_eq_pagesUp {n m : Nat} (hn : n ≤ m) (hm : PageAligned m) (hlt : m < wordSize) :
    roundUp n = pagesUp n := by
  have hroom : n + pageSize - 1 < wordSize := by
    rcases hm with ⟨k, rfl⟩
    unfold pageSize wordSize at *
    omega
  rw [roundUp, wrap_of_lt hroom, pagesUp]

theorem roundUp_of_le {n : Nat} (h : n + pageSize ≤ wordSize) : roundUp n = pagesUp n := by
  have hroom : n + pageSize - 1 < wordSize := by
    unfold pageSize at *
    omega
  rw [roundUp, wrap_of_lt hroom, pagesUp]

theorem pagesUp_add {b n : Nat} (hb : PageAligned b) : pagesUp (b + n) = b + pagesUp n := by
  rcases hb with ⟨k, rfl⟩
  unfold pagesUp pageSize
  omega

theorem roundDown_add {b n : Nat} (hb : PageAligned b) : roundDown (b + n) = b + roundDown n := by
  rcases hb with ⟨k, rfl⟩
  unfold roundDown pageSize
  omega

theorem roundDown_add_pageOffset (n : Nat) : roundDown n + pageOffset n = n := Nat.div_add_mod' n _

/-- The pages from the start of the first one on. -/
theorem roundDown_add_pagesUp (v n : Nat) :
    roundDown v + pagesUp (n + pageOffset v) = pagesUp (v + n) := by
  unfold roundDown pagesUp pageOffset pageSize
  omega

theorem pageAligned_roundDown (n : Nat) : PageAligned (roundDown n) := Nat.dvd_mul_left _ _

/-- From an aligned end, the pages of what is missing reach to the end of the last page. -/
theorem add_pagesUp_sub {e n : Nat} (he : PageAligned e) (hn : e ≤ n) :
    e + pagesUp (n - e) = pagesUp n := by
  rcases he with ⟨k, rfl⟩
  unfold pagesUp pageSize at *
  omega

/-- An aligned range of at least one byte that ends inside the address space; `mmap` and `mprotect`
fail on any other. -/
structure ValidRange (addr len : Nat) : Prop where
  aligned : PageAligned addr
  pos : 0 < len
  room : addr + pagesUp len < wordSize

instance (addr len : Nat) : Decidable (ValidRange addr len) :=
  decidable_of_iff (PageAligned addr ∧ 0 < len ∧ addr + pagesUp len < wordSize)
    ⟨fun ⟨h₁, h₂, h₃⟩ => ⟨h₁, h₂, h₃⟩, fun ⟨h₁, h₂, h₃⟩ => ⟨h₁, h₂, h₃⟩⟩

namespace ValidRange

variable {addr len : Nat}

theorem lt_end (h : ValidRange addr len) : addr < addr + pagesUp len := by
  have := le_pagesUp len
  have := h.pos
  omega

theorem aligned_end (h : ValidRange addr len) : PageAligned (addr + pagesUp len) :=
  Nat.dvd_add h.aligned (pageAligned_pagesUp len)

theorem start_lt (h : ValidRange addr len) : addr < wordSize := lt_trans h.lt_end h.room

/-- `MAP_FAILED` is not the start of a page. -/
theorem ne_mapFailed (h : ValidRange addr len) : addr ≠ mapFailed := by
  rintro rfl
  exact absurd h.aligned (by decide)

end ValidRange

namespace AddrSpace

def protAt (s : AddrSpace) (x : Nat) : Option Nat := (s.maps.lookup x).map Mapping.prot

def anonymous (prot : Nat) : Mapping where
  prot := prot % 8
  name := []
  prot_lt := Nat.mod_lt _ (by decide)
  name_length := by decide
  name_nul := by simp

/-- A new anonymous mapping of zeros at a fixed place, whatever was there before. -/
def mapFixed (s : AddrSpace) (addr len prot : Nat) (h : ValidRange addr len) : AddrSpace where
  maps := s.maps.insert addr (addr + pagesUp len) (anonymous prot) h.lt_end
  bytes := fun x => if addr ≤ x ∧ x < addr + pagesUp len then 0 else s.bytes x
  aligned := RangeMap.ends_insert s.aligned h.aligned h.aligned_end
  bounded := @RangeMap.ends_insert _ (· < wordSize) _ _ _ _ _ s.bounded h.start_lt h.room

def reprotect (prot : Nat) (m : Mapping) : Mapping :=
  { m with prot := prot % 8, prot_lt := Nat.mod_lt _ (by decide) }

/-- Another protection for what is mapped in a range. -/
def protect (s : AddrSpace) (addr len prot : Nat) (h : ValidRange addr len) : AddrSpace where
  maps := s.maps.modify (fun m => some (reprotect prot m)) addr (addr + pagesUp len)
  bytes := s.bytes
  aligned := RangeMap.ends_modify s.aligned h.aligned h.aligned_end
  bounded := @RangeMap.ends_modify _ (· < wordSize) _ _ _ _ s.bounded h.start_lt h.room

def store (s : AddrSpace) (addr : Nat) (data : List UInt8) : AddrSpace :=
  { s with
    bytes := fun x => if addr ≤ x ∧ x < addr + data.length then data.getD (x - addr) 0
      else s.bytes x }

@[simp] theorem maps_store (s : AddrSpace) (addr : Nat) (data : List UInt8) :
    (s.store addr data).maps = s.maps := rfl

/-- The addresses at which something is mapped. -/
def mappedSet (s : AddrSpace) : Set Nat := {x | s.maps.lookup x ≠ none}

theorem mem_mappedSet {s : AddrSpace} {x : Nat} : x ∈ s.mappedSet ↔ s.maps.lookup x ≠ none :=
  Iff.rfl

theorem mem_mappedSet_of_protAt {s : AddrSpace} {x prot : Nat} (h : s.protAt x = some prot) :
    x ∈ s.mappedSet := by
  intro hnone
  simp [protAt, hnone] at h

/-- A free range holds nothing that is mapped. -/
theorem not_mem_of_free {s : AddrSpace} {lo hi x : Nat} (hfree : s.maps.Free lo hi)
    (hx : x ∈ s.mappedSet) : ¬ (lo ≤ x ∧ x < hi) := by
  rintro ⟨hlo, hhi⟩
  exact hx ((RangeMap.free_iff (lt_of_le_of_lt hlo hhi)).1 hfree x hlo hhi)

theorem lookup_mapFixed (s : AddrSpace) {addr len : Nat} (prot : Nat) (h : ValidRange addr len)
    (x : Nat) :
    (s.mapFixed addr len prot h).maps.lookup x =
      if addr ≤ x ∧ x < addr + pagesUp len then some (anonymous prot) else s.maps.lookup x :=
  RangeMap.lookup_insert _ h.lt_end _ _

theorem lookup_protect (s : AddrSpace) {addr len : Nat} (prot : Nat) (h : ValidRange addr len)
    (x : Nat) :
    (s.protect addr len prot h).maps.lookup x =
      if addr ≤ x ∧ x < addr + pagesUp len then (s.maps.lookup x).map (reprotect prot)
      else s.maps.lookup x := by
  rw [protect, RangeMap.lookup_modify, Option.map_eq_bind]
  rfl

theorem protAt_mapFixed (s : AddrSpace) {addr len prot : Nat} (h : ValidRange addr len)
    (hprot : prot < 8) (x : Nat) :
    (s.mapFixed addr len prot h).protAt x =
      if addr ≤ x ∧ x < addr + pagesUp len then some prot else s.protAt x := by
  rw [protAt, lookup_mapFixed]
  split
  · exact congrArg some (Nat.mod_eq_of_lt hprot)
  · rfl

theorem bytes_mapFixed (s : AddrSpace) {addr len : Nat} (prot : Nat) (h : ValidRange addr len)
    (x : Nat) :
    (s.mapFixed addr len prot h).bytes x =
      if addr ≤ x ∧ x < addr + pagesUp len then 0 else s.bytes x := rfl

/-- Outside its range a mapping changes nothing. -/
theorem mapFixed_of_not_mem (s : AddrSpace) {addr len : Nat} (prot : Nat) (h : ValidRange addr len)
    {x : Nat} (hx : ¬ (addr ≤ x ∧ x < addr + pagesUp len)) :
    (s.mapFixed addr len prot h).maps.lookup x = s.maps.lookup x ∧
      (s.mapFixed addr len prot h).bytes x = s.bytes x :=
  ⟨(lookup_mapFixed s prot h x).trans (if_neg hx), if_neg hx⟩

@[simp] theorem bytes_store_self (s : AddrSpace) (addr : Nat) (b : UInt8) (data : List UInt8) :
    (s.store addr (b :: data)).bytes addr = b := by
  simp [store]

theorem bytes_store_of_not_mem (s : AddrSpace) {addr : Nat} {data : List UInt8} {x : Nat}
    (hx : ¬ (addr ≤ x ∧ x < addr + data.length)) : (s.store addr data).bytes x = s.bytes x :=
  if_neg hx

theorem mem_mappedSet_mapFixed {s : AddrSpace} {addr len prot : Nat} (h : ValidRange addr len)
    {x : Nat} :
    x ∈ (s.mapFixed addr len prot h).mappedSet ↔
      (addr ≤ x ∧ x < addr + pagesUp len) ∨ x ∈ s.mappedSet := by
  rw [mem_mappedSet, lookup_mapFixed]
  by_cases hx : addr ≤ x ∧ x < addr + pagesUp len <;> simp [hx, mem_mappedSet]

@[simp] theorem mappedSet_store (s : AddrSpace) (addr : Nat) (data : List UInt8) :
    (s.store addr data).mappedSet = s.mappedSet := rfl

@[simp] theorem mappedSet_protect (s : AddrSpace) {addr len : Nat} (prot : Nat)
    (h : ValidRange addr len) : (s.protect addr len prot h).mappedSet = s.mappedSet := by
  ext x
  rw [mem_mappedSet, lookup_protect]
  split <;> simp [mem_mappedSet]

/-- `s'` is what a call that fails may leave of `s`: in the range, if it is one, some of the mappings
have been changed, or removed where `change` gives none.  A mapping apart from the range stays one,
and no name is new. -/
structure Partly (change : Mapping → Option Mapping) (s : AddrSpace) (addr len : Nat)
    (s' : AddrSpace) : Prop where
  bytes : s'.bytes = s.bytes
  maps : ∀ x, s'.maps.lookup x = s.maps.lookup x ∨
    (ValidRange addr len ∧ (addr ≤ x ∧ x < addr + pagesUp len) ∧
      s'.maps.lookup x = (s.maps.lookup x).bind change)
  kept : ∀ g ∈ s.maps.segs, (ValidRange addr len → g.Apart addr (addr + pagesUp len)) →
    g ∈ s'.maps.segs
  parts : ∀ t ∈ s'.maps.segs, ∃ g ∈ s.maps.segs, g.lo ≤ t.lo ∧ t.hi ≤ g.hi ∧
    t.val.name = g.val.name

namespace Partly

variable {change : Mapping → Option Mapping} {s s' : AddrSpace} {addr len : Nat}

theorem refl (change : Mapping → Option Mapping) (s : AddrSpace) (addr len : Nat) :
    Partly change s addr len s where
  bytes := rfl
  maps := fun _ => .inl rfl
  kept := fun _ hg _ => hg
  parts := fun t ht => ⟨t, ht, le_rfl, le_rfl, rfl⟩

theorem lookup_of_not_mem (h : Partly change s addr len s') {x : Nat}
    (hx : ¬ (addr ≤ x ∧ x < addr + pagesUp len)) : s'.maps.lookup x = s.maps.lookup x := by
  rcases h.maps x with hsame | ⟨_, hin, _⟩
  · exact hsame
  · exact absurd hin hx

theorem lookup_of_invalid (h : Partly change s addr len s') (hinvalid : ¬ ValidRange addr len)
    (x : Nat) : s'.maps.lookup x = s.maps.lookup x := by
  rcases h.maps x with hsame | ⟨hvalid, _⟩
  · exact hsame
  · exact absurd hvalid hinvalid

theorem protAt_of_not_mem (h : Partly change s addr len s') {x : Nat}
    (hx : ¬ (addr ≤ x ∧ x < addr + pagesUp len)) : s'.protAt x = s.protAt x :=
  congrArg (Option.map Mapping.prot) (h.lookup_of_not_mem hx)

theorem protAt_of_invalid (h : Partly change s addr len s') (hinvalid : ¬ ValidRange addr len)
    (x : Nat) : s'.protAt x = s.protAt x :=
  congrArg (Option.map Mapping.prot) (h.lookup_of_invalid hinvalid x)

/-- Where nothing is mapped there is nothing to change. -/
theorem lookup_of_none (h : Partly change s addr len s') {x : Nat}
    (hnone : s.maps.lookup x = none) : s'.maps.lookup x = none := by
  rcases h.maps x with hsame | ⟨_, _, hchanged⟩
  · rw [hsame, hnone]
  · rw [hchanged, hnone, Option.bind_none]

theorem mappedSet_subset (h : Partly change s addr len s') : s'.mappedSet ⊆ s.mappedSet :=
  fun _ hx hnone => hx (h.lookup_of_none hnone)

/-- A change that removes nothing leaves everything mapped. -/
theorem mappedSet_eq {f : Mapping → Mapping} (h : Partly (fun m => some (f m)) s addr len s') :
    s'.mappedSet = s.mappedSet := by
  refine Set.Subset.antisymm h.mappedSet_subset fun x hx => ?_
  rcases h.maps x with hsame | ⟨_, _, hchanged⟩
  · rwa [mem_mappedSet, hsame]
  · rcases Option.ne_none_iff_exists'.1 hx with ⟨m, hm⟩
    rw [mem_mappedSet, hchanged, hm]
    exact Option.some_ne_none _

end Partly

def mapped (s : AddrSpace) (addr len : Nat) : Bool :=
  -- mappings have whole pages, so one address of each page is enough
  (List.range (pagesUp len / pageSize)).all fun i =>
    (s.maps.lookup (addr + i * pageSize)).isSome

theorem mapped_mapFixed (s : AddrSpace) {addr len : Nat} (prot : Nat) (h : ValidRange addr len) :
    (s.mapFixed addr len prot h).mapped addr len = true := by
  refine List.all_eq_true.2 fun i hi => ?_
  have hpages := List.mem_range.1 hi
  have hinside : i * pageSize < pagesUp len := by
    unfold pagesUp pageSize at *
    omega
  rw [lookup_mapFixed, if_pos ⟨Nat.le_add_right _ _, Nat.add_lt_add_left hinside _⟩]
  rfl

/-- Of a mapped range every address is mapped. -/
theorem lookup_of_mapped {s : AddrSpace} {addr len : Nat} (haddr : PageAligned addr)
    (hmapped : s.mapped addr len = true) {x : Nat} (hlo : addr ≤ x) (hhi : x < addr + pagesUp len) :
    s.maps.lookup x ≠ none := by
  obtain ⟨k, hk⟩ := pageAligned_pagesUp len
  have hpage : (x - addr) / pageSize < pagesUp len / pageSize := by
    rw [hk, Nat.mul_div_cancel_left k (by decide)]
    exact Nat.div_lt_of_lt_mul (by omega)
  have hfirst := List.all_eq_true.1 hmapped _ (List.mem_range.2 hpage)
  obtain ⟨v, hv⟩ := Option.isSome_iff_exists.1 hfirst
  obtain ⟨g, hg, hx, -⟩ := RangeMap.lookup_eq_some_iff.1 hv
  -- the mapping of the first address of the page reaches to the end of the page
  have hin : g.Has x := by
    obtain ⟨a, ha⟩ := haddr
    obtain ⟨b, hb⟩ := (s.aligned g hg).2
    simp only [Seg.Has, pageSize] at *
    omega
  rw [RangeMap.lookup_eq_some_iff.2 ⟨g, hg, hin, rfl⟩]
  exact Option.some_ne_none _

end AddrSpace

/-! ## The kernel -/

structure Kernel where
  /-- One reading of `/proc/self/maps`, unless it cannot be opened. -/
  procMaps : AddrSpace → Option MapsSnapshot
  /-- Why it refuses a mapping that it could make. -/
  refusesMmap : AddrSpace → MmapCall → Option Errno
  refusesMprotect : AddrSpace → Nat → Nat → Nat → Option Errno
  /-- What a mapping that fails has removed of what was in its place. -/
  failedMmap : (s : AddrSpace) → (c : MmapCall) →
    {s' // AddrSpace.Partly (fun _ => none) s c.addr c.length s'}
  /-- Which pages have their new protection when `mprotect` fails. -/
  failedMprotect : (s : AddrSpace) → (addr len prot : Nat) →
    {s' // AddrSpace.Partly (fun m => some (AddrSpace.reprotect prot m)) s addr len s'}

namespace Kernel

variable (k : Kernel)

/-- `mmap` with `MAP_FIXED | MAP_PRIVATE | MAP_ANONYMOUS`: the answer and the address space. -/
def mmapFixed (s : AddrSpace) (c : MmapCall) : MmapWorld × AddrSpace :=
  match k.refusesMmap s c with
  | some e => (⟨mapFailed, e, none⟩, k.failedMmap s c)
  | none =>
      if h : ValidRange c.addr c.length then
        (⟨c.addr, .EINVAL, none⟩, s.mapFixed c.addr c.length c.prot h)
      else (⟨mapFailed, .EINVAL, none⟩, s)

/-- The kernel makes a mapping that it does not refuse, if there can be one. -/
def Grants (s : AddrSpace) (c : MmapCall) : Prop :=
  k.refusesMmap s c = none ∧ ValidRange c.addr c.length

/-- It fails, and may have removed what was in its place, or maps a valid range. -/
theorem mmapFixed_cases (s : AddrSpace) (c : MmapCall) :
    (¬ k.Grants s c ∧ (k.mmapFixed s c).1.ret = mapFailed ∧
        AddrSpace.Partly (fun _ => none) s c.addr c.length (k.mmapFixed s c).2) ∨
      (k.Grants s c ∧ ∃ h : ValidRange c.addr c.length, k.mmapFixed s c =
        (⟨c.addr, .EINVAL, none⟩, s.mapFixed c.addr c.length c.prot h)) := by
  cases hrefuse : k.refusesMmap s c with
  | some e =>
      left
      simp [mmapFixed, Grants, hrefuse, (k.failedMmap s c).2]
  | none =>
      by_cases h : ValidRange c.addr c.length
      · right
        exact ⟨⟨hrefuse, h⟩, h, by simp [mmapFixed, hrefuse, h]⟩
      · left
        simp [mmapFixed, Grants, hrefuse, h, AddrSpace.Partly.refl]

theorem link_mmapFixed (s : AddrSpace) (c : MmapCall) : (k.mmapFixed s c).1.link = none := by
  unfold mmapFixed
  cases k.refusesMmap s c with
  | some e => rfl
  | none => by_cases h : ValidRange c.addr c.length <;> simp [h]

def mprotect (s : AddrSpace) (addr len prot : Nat) : Int × AddrSpace :=
  match k.refusesMprotect s addr len prot with
  | some _ => (-1, k.failedMprotect s addr len prot)
  | none =>
      if h : ValidRange addr len then
        -- a hole in the range is an error, met when the pages before it are done
        if s.mapped addr len then (0, s.protect addr len prot h)
        else (-1, k.failedMprotect s addr len prot)
      else (-1, s)

/-- It fails, and may have changed some of the protections, or changes all of a valid range. -/
theorem mprotect_cases (s : AddrSpace) (addr len prot : Nat) :
    ((k.mprotect s addr len prot).1 = -1 ∧
        AddrSpace.Partly (fun m => some (AddrSpace.reprotect prot m)) s addr len
          (k.mprotect s addr len prot).2) ∨
      ∃ h : ValidRange addr len, k.mprotect s addr len prot = (0, s.protect addr len prot h) := by
  cases hrefuse : k.refusesMprotect s addr len prot with
  | some e =>
      left
      simp [mprotect, hrefuse, (k.failedMprotect s addr len prot).2]
  | none =>
      by_cases h : ValidRange addr len
      · by_cases hmapped : s.mapped addr len = true
        · right
          exact ⟨h, by simp [mprotect, hrefuse, h, hmapped]⟩
        · left
          simp [mprotect, hrefuse, h, hmapped, (k.failedMprotect s addr len prot).2]
      · left
        simp [mprotect, hrefuse, h, AddrSpace.Partly.refl]

/-- Whatever its result, it leaves the bytes. -/
theorem bytes_mprotect (s : AddrSpace) (addr len prot : Nat) :
    (k.mprotect s addr len prot).2.bytes = s.bytes := by
  rcases k.mprotect_cases s addr len prot with ⟨_, hpartly⟩ | ⟨_, hdone⟩
  · exact hpartly.bytes
  · rw [hdone]
    rfl

theorem mappedSet_mprotect (s : AddrSpace) (addr len prot : Nat) :
    (k.mprotect s addr len prot).2.mappedSet = s.mappedSet := by
  rcases k.mprotect_cases s addr len prot with ⟨_, hpartly⟩ | ⟨_, hdone⟩
  · exact hpartly.mappedSet_eq
  · rw [hdone, AddrSpace.mappedSet_protect]

/-- Outside its range it changes nothing. -/
theorem lookup_mprotect (s : AddrSpace) {addr len prot x : Nat}
    (hx : ¬ (addr ≤ x ∧ x < addr + pagesUp len)) :
    (k.mprotect s addr len prot).2.maps.lookup x = s.maps.lookup x := by
  rcases k.mprotect_cases s addr len prot with ⟨_, hpartly⟩ | ⟨h, hdone⟩
  · exact hpartly.lookup_of_not_mem hx
  · rw [hdone, AddrSpace.lookup_protect, if_neg hx]

/-- The maps file, whenever it can be read, lists all that is mapped. -/
def ListsAll : Prop :=
  ∀ s l, k.procMaps s = some l → ∀ x ∈ s.mappedSet, ∃ a ∈ l.areas, x ∈ a.range

end Kernel

/-- The areas list the mappings: none is empty, each shows the protection and the name of what is
mapped in it, and each mapping lies in one of them. -/
structure Lists (s : AddrSpace) (l : MapsSnapshot) : Prop where
  nonempty : ∀ a ∈ l.areas, a.addr < a.endAddr
  sound : ∀ a ∈ l.areas, ∀ x ∈ a.range,
    ∃ g ∈ s.maps.segs, g.Has x ∧ g.val.prot = a.prot ∧ g.val.name = a.name
  complete : ∀ g ∈ s.maps.segs, ∃ a ∈ l.areas, a.addr ≤ g.lo ∧ g.hi ≤ a.endAddr

/-- The maps file, whenever it can be read, lists the mappings. -/
def Kernel.Honest (k : Kernel) : Prop := ∀ s l, k.procMaps s = some l → Lists s l

theorem Kernel.Honest.listsAll {k : Kernel} (hk : k.Honest) : k.ListsAll := by
  intro s l hl x hx
  rcases Option.ne_none_iff_exists'.1 hx with ⟨v, hv⟩
  rcases RangeMap.lookup_eq_some_iff.1 hv with ⟨g, hg, hxg, _⟩
  rcases (hk s l hl).complete g hg with ⟨a, ha, hlo, hhi⟩
  exact ⟨a, ha, le_trans hlo hxg.1, lt_of_lt_of_le hxg.2 hhi⟩

/-! ## A kernel that merges nothing -/

def emptySpace : AddrSpace where
  maps := ⟨[], fun _ hs => absurd hs List.not_mem_nil, .nil⟩
  bytes := fun _ => 0
  aligned := fun _ hs => absurd hs List.not_mem_nil
  bounded := fun _ hs => absurd hs List.not_mem_nil

def listSeg (g : Seg Mapping) : Area where
  addr := g.lo
  endAddr := g.hi
  size := g.hi - g.lo
  offset := 0
  prot := g.val.prot
  flags := mapFixed ||| mapPrivate ||| mapAnonymous
  devmajor := 0
  devminor := 0
  inodenum := 0
  properties := 0
  name := g.val.name

def listEach (s : AddrSpace) : MapsSnapshot where
  areas := s.maps.segs.map listSeg
  fits := by
    intro a ha
    rcases List.mem_map.1 ha with ⟨g, hg, rfl⟩
    have hbound := s.bounded g hg
    have hzero : 0 < wordSize := by decide
    have hflags : mapFixed ||| mapPrivate ||| mapAnonymous < 2 ^ 32 := by decide
    exact ⟨hbound.1, hbound.2, lt_of_le_of_lt (Nat.sub_le _ _) hbound.2, hzero, g.val.prot_lt,
      hflags, hzero, hzero, hzero, hzero, g.val.name_length, g.val.name_nul⟩
  ordered := by
    intro a ha
    rcases List.mem_map.1 ha with ⟨g, hg, rfl⟩
    exact Nat.le_of_lt (s.maps.nonempty g hg)
  sized := by
    intro a ha
    rcases List.mem_map.1 ha with ⟨g, _, rfl⟩
    rfl
  aligned := by
    intro a ha
    rcases List.mem_map.1 ha with ⟨g, hg, rfl⟩
    exact s.aligned g hg
  disjoint := by
    rw [List.pairwise_map]
    refine s.maps.disjoint.imp fun {g h} hapart => Set.Ico_disjoint_Ico.2 ?_
    simp only [Seg.Apart] at hapart
    simp only [listSeg]
    omega

theorem lists_listEach (s : AddrSpace) : Lists s (listEach s) where
  nonempty := by
    intro a ha
    rcases List.mem_map.1 ha with ⟨g, hg, rfl⟩
    exact s.maps.nonempty g hg
  sound := by
    intro a ha x hx
    rcases List.mem_map.1 ha with ⟨g, hg, rfl⟩
    exact ⟨g, hg, hx, rfl, rfl⟩
  complete := fun g hg => ⟨listSeg g, List.mem_map_of_mem hg, le_rfl, le_rfl⟩

def Kernel.plain : Kernel where
  procMaps := fun s => some (listEach s)
  refusesMmap := fun _ _ => none
  refusesMprotect := fun _ _ _ _ => none
  failedMmap := fun s c => ⟨s, .refl _ s c.addr c.length⟩
  failedMprotect := fun s addr len _ => ⟨s, .refl _ s addr len⟩

theorem Kernel.plain_lists (s : AddrSpace) :
    ∃ l, Kernel.plain.procMaps s = some l ∧ Lists s l := ⟨listEach s, rfl, lists_listEach s⟩

theorem Kernel.plain_honest : Kernel.plain.Honest := by
  intro s l hl
  obtain rfl : listEach s = l := by simpa [Kernel.plain] using hl
  exact lists_listEach s

end CkptRestart
