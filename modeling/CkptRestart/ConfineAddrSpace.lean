import CkptRestart.CustomLoader

/-!
# ConfineAddrSpace — the window of a rank

`confine_addr_space` of `kernel-loader.c` leaves to each rank the 4 GB that
`map_elf_interpreter_load_segment` puts its loader into, and books everything else between the heap
and the stack.

`confineAddrSpace_confines` says that the bookings fill the complement of the window without touching
it, nor the regions that the kernel has put there.
-/

namespace CkptRestart

open Lib

/-! ## The code -/

def vvarRegionName : List UInt8 := cstr ['[', 'v', 'v', 'a', 'r', ']']
def vdsoRegionName : List UInt8 := cstr ['[', 'v', 'd', 's', 'o', ']']
def stackRegionName : List UInt8 := cstr ['[', 's', 't', 'a', 'c', 'k', ']']

/-- What the process finds: the kernel, which may refuse to move the break, what the variables for the
areas hold at first, and the address of the last of them. -/
structure ConfineEnv where
  kernel : Kernel
  refusesBrk : AddrSpace → Nat → Option Errno
  junk : Area
  sp : Nat

/-- The memory of the process, and the ranges that were booked. -/
structure Confined where
  space : AddrSpace
  bookings : List MmapInfo

namespace ConfineEnv

variable (env : ConfineEnv)

/-- The first line of the maps file that is looked for. -/
def firstArea (s : AddrSpace) (p : Area → Bool) : Area :=
  match env.kernel.procMaps s with
  | none => env.junk
  | some l => (l.areas.find? p).getD env.junk

def getVvarRegion (s : AddrSpace) : Area := env.firstArea s fun a => strstr a.name vvarRegionName

def getVdsoRegion (s : AddrSpace) : Area := env.firstArea s fun a => strstr a.name vdsoRegionName

def getStackRegion (s : AddrSpace) : Area :=
  env.firstArea s fun a => strstr a.name stackRegionName && decide (a.endAddr ≥ env.sp)

/-- `sbrk(PAGE_SZ)`: the old break, after which a page of the heap has been mapped. -/
def sbrkPage (s : AddrSpace) (brk : Nat) : Option (Nat × AddrSpace) :=
  match env.refusesBrk s brk with
  | some _ => none
  | none =>
      if h : ValidRange (roundUp brk) pageSize then
        some (brk, s.mapFixed (roundUp brk) pageSize (protRead ||| protWrite) h)
      else none

/-- `assert(mmap(addr, map_size, prot, flags, -1, 0) != MAP_FAILED)` -/
def book (addr mapSize : Nat) (c : Confined) : Exec Confined :=
  let call : MmapCall :=
    ⟨addr, mapSize, protNone, CkptRestart.mapFixed ||| mapAnonymous ||| mapPrivate, -1, 0⟩
  let (w, space) := env.kernel.mmapFixed c.space call
  if w.ret = mapFailed then .exited else .ok ⟨space, c.bookings ++ [⟨addr, mapSize⟩]⟩

/-- The same under `if (map_size > 0)`. -/
def bookNonempty (addr mapSize : Nat) (c : Confined) : Exec Confined :=
  if mapSize > 0 then env.book addr mapSize c else .ok c

end ConfineEnv

def addrSpaceSize : Nat := 2 ^ 32

def addrSpaceBegin (rankId : Int) : Nat :=
  wrap (addrSpaceSize + toUnsigned (rankId * addrSpaceSize))

def confineAddrSpace (env : ConfineEnv) (rankId : Int) (s : AddrSpace) (brk : Nat) :
    Exec Confined :=
  match env.sbrkPage s brk with
  | none => .exited
  | some (addr, s) => do
      let c ← env.book addr (toUnsigned ((addrSpaceBegin rankId : Int) - addr)) ⟨s, []⟩
      let vvar := env.getVvarRegion c.space
      let addr := wrap (addrSpaceBegin rankId + addrSpaceSize)
      let c ← env.book addr (toUnsigned ((vvar.addr : Int) - addr)) c
      let vdso := env.getVdsoRegion c.space
      let addr := vvar.endAddr
      let mapSize := toUnsigned ((vdso.addr : Int) - addr)
      let c ← env.bookNonempty addr mapSize c
      let stack := env.getStackRegion c.space
      env.book vdso.endAddr (toUnsigned ((stack.addr : Int) - vdso.endAddr)) c

/-! ## Mappings with a name -/

/-- The mapping is the only one with the text in its name. -/
structure Named (s : AddrSpace) (name : List UInt8) (g : Seg Mapping) : Prop where
  mem : g ∈ s.maps.segs
  here : strstr g.val.name name = true
  only : ∀ t ∈ s.maps.segs, strstr t.val.name name = true → t = g

/-- A new mapping apart from it changes nothing about that. -/
theorem Named.mapFixed {s : AddrSpace} {name : List UInt8} {g : Seg Mapping} (h : Named s name g)
    (hname : name ≠ []) {addr len : Nat} (prot : Nat) (hvalid : ValidRange addr len)
    (hapart : g.Apart addr (addr + pagesUp len)) :
    Named (s.mapFixed addr len prot hvalid) name g where
  mem := RangeMap.mem_segs_insert_of_apart _ hvalid.lt_end h.mem hapart
  here := h.here
  only := by
    intro t ht htext
    rcases RangeMap.exists_of_mem_segs_insert hvalid.lt_end ht with rfl | ⟨u, hu, hval, heq⟩
    · -- the new mapping has no name
      exact absurd (List.infix_nil.1 (of_decide_eq_true htext)) hname
    · obtain rfl := h.only u hu (by rwa [← hval])
      exact heq hapart

/-- Nor does a call that fails elsewhere. -/
theorem Named.partly {change : Mapping → Option Mapping} {s s' : AddrSpace} {name : List UInt8}
    {g : Seg Mapping} (h : Named s name g) {addr len : Nat}
    (hpartly : AddrSpace.Partly change s addr len s')
    (hapart : ValidRange addr len → g.Apart addr (addr + pagesUp len)) : Named s' name g where
  mem := hpartly.kept g h.mem hapart
  here := h.here
  only := by
    intro t ht htext
    -- it is a part of the named one, which is still whole
    rcases hpartly.parts t ht with ⟨u, hu, hlo, hhi, hname⟩
    obtain rfl := h.only u hu (by rwa [← hname])
    have hne := s'.maps.nonempty t ht
    exact RangeMap.eq_of_has ht (hpartly.kept u hu hapart) ⟨le_rfl, hne⟩
      ⟨hlo, lt_of_lt_of_le hne hhi⟩

/-- The search in a listing finds it, in an area of its own. -/
theorem Named.find {s : AddrSpace} {name : List UInt8} {g : Seg Mapping} (h : Named s name g)
    {l : MapsSnapshot} (hlists : Lists s l) {p : Area → Bool}
    (hp : ∀ a : Area, p a = true → strstr a.name name = true)
    (hhit : ∀ a : Area, strstr a.name name = true → a.endAddr = g.hi → p a = true) :
    ∃ a, l.areas.find? p = some a ∧ a.addr = g.lo ∧ a.endAddr = g.hi := by
  have hne := s.maps.nonempty g h.mem
  -- an area with the text in its name shows nothing but this mapping
  have hinside : ∀ a ∈ l.areas, strstr a.name name = true → ∀ x ∈ a.range, g.Has x := by
    intro a ha htext x hx
    rcases hlists.sound a ha x hx with ⟨t, ht, hxt, _, htname⟩
    obtain rfl := h.only t ht (by rwa [htname])
    exact hxt
  rcases hlists.complete g h.mem with ⟨a, ha, hlo, hhi⟩
  have hfirst : g.lo ∈ a.range := Area.mem_range.2 ⟨hlo, by omega⟩
  have htext : strstr a.name name = true := by
    rcases hlists.sound a ha g.lo hfirst with ⟨t, ht, hxt, _, htname⟩
    obtain rfl := RangeMap.eq_of_has ht h.mem hxt ⟨le_rfl, hne⟩
    rw [← htname]
    exact h.here
  have hstart := hinside a ha htext a.addr (Area.mem_range.2 ⟨le_rfl, by omega⟩)
  have hstop := hinside a ha htext (a.endAddr - 1) (Area.mem_range.2 ⟨by omega, by omega⟩)
  have haddr : a.addr = g.lo := Nat.le_antisymm hlo hstart.1
  have hend : a.endAddr = g.hi := by
    have := hstop.2
    omega
  refine ⟨a, ?_, haddr, hend⟩
  cases hfind : l.areas.find? p with
  | none => exact absurd (hhit a htext hend) (List.find?_eq_none.1 hfind a ha)
  | some b =>
      -- the first hit shows an address of the same mapping
      have hb := List.mem_of_find?_eq_some hfind
      have hbne := hlists.nonempty b hb
      have hbin := hinside b hb (hp b (List.find?_some hfind)) b.addr
        (Area.mem_range.2 ⟨le_rfl, hbne⟩)
      have hshared : b.addr ∈ a.range := by
        rw [Area.mem_range, haddr, hend]
        exact hbin
      rw [Area.eq_of_mem_range l.disjoint hb ha (Area.mem_range.2 ⟨le_rfl, hbne⟩) hshared]

/-! ## One booking -/

/-- The kernel refuses something that it could do. -/
def ConfineEnv.Refuses (env : ConfineEnv) : Prop :=
  (∃ s brk, env.refusesBrk s brk ≠ none) ∨ ∃ s c, env.kernel.refusesMmap s c ≠ none

theorem ConfineEnv.sbrkPage_cases (env : ConfineEnv) (s : AddrSpace) {brk : Nat}
    (hvalid : ValidRange brk pageSize) :
    (env.sbrkPage s brk = none ∧ env.Refuses) ∨
      env.sbrkPage s brk =
        some (brk, s.mapFixed brk pageSize (protRead ||| protWrite) hvalid) := by
  have hup : roundUp brk = brk := by
    rw [roundUp_eq_pagesUp le_rfl hvalid.aligned hvalid.start_lt, pagesUp_of_aligned hvalid.aligned]
  cases hrefuse : env.refusesBrk s brk with
  | some e =>
      left
      exact ⟨by simp [sbrkPage, hrefuse], .inl ⟨s, brk, by simp [hrefuse]⟩⟩
  | none =>
      right
      simp only [sbrkPage, hrefuse, hup]
      rw [dif_pos hvalid]

theorem ConfineEnv.book_cases (env : ConfineEnv) (c : Confined) {addr mapSize : Nat}
    (hvalid : ValidRange addr mapSize) :
    (env.book addr mapSize c = .exited ∧ env.Refuses) ∨
      env.book addr mapSize c = .ok ⟨c.space.mapFixed addr mapSize protNone hvalid,
        c.bookings ++ [⟨addr, mapSize⟩]⟩ := by
  let call : MmapCall :=
    ⟨addr, mapSize, protNone, CkptRestart.mapFixed ||| mapAnonymous ||| mapPrivate, -1, 0⟩
  rcases env.kernel.mmapFixed_cases c.space call with ⟨hnot, hret, _⟩ | ⟨_, _, hmmap⟩
  · left
    exact ⟨if_pos hret, .inr ⟨c.space, call, fun hnone => hnot ⟨hnone, hvalid⟩⟩⟩
  · right
    have hrun : env.book addr mapSize c =
        if (env.kernel.mmapFixed c.space call).1.ret = mapFailed then .exited
        else .ok ⟨(env.kernel.mmapFixed c.space call).2, c.bookings ++ [⟨addr, mapSize⟩]⟩ := rfl
    rw [hrun, hmmap]
    exact if_neg hvalid.ne_mapFailed

/-- The ranges `bs` have been booked, and the regions are where they were. -/
structure Booked (regions : List (List UInt8 × Seg Mapping)) (bs : List MmapInfo) (c : Confined) :
    Prop where
  bookings : c.bookings = bs
  named : ∀ p ∈ regions, Named c.space p.1 p.2
  mapped : ∀ b ∈ bs, b.range ⊆ c.space.mappedSet

theorem toUnsigned_sub {a b : Nat} (h : a ≤ b) (hb : b < wordSize) :
    toUnsigned ((b : Int) - a) = b - a := by
  unfold toUnsigned wordSize at *
  omega

theorem validRange_sub {lo hi : Nat} (hlo : PageAligned lo) (hhi : PageAligned hi) (hlt : lo < hi)
    (hword : hi < wordSize) : ValidRange lo (hi - lo) where
  aligned := hlo
  pos := Nat.sub_pos_of_lt hlt
  room := by
    rw [add_pagesUp_sub hlo hlt.le, pagesUp_of_aligned hhi]
    exact hword

/-- A booking from one page to another, apart from the regions. -/
theorem Booked.book {env : ConfineEnv} {regions : List (List UInt8 × Seg Mapping)}
    {bs : List MmapInfo} {c : Confined} (h : Booked regions bs c)
    (hnames : ∀ p ∈ regions, p.1 ≠ []) {lo hi : Nat} (hlo : PageAligned lo) (hhi : PageAligned hi)
    (hlt : lo < hi) (hword : hi < wordSize) (hapart : ∀ p ∈ regions, p.2.Apart lo hi) :
    Exec.OkUnless env.Refuses (Booked regions (bs ++ [⟨lo, hi - lo⟩]))
      (env.book lo (toUnsigned ((hi : Int) - lo)) c) := by
  rw [toUnsigned_sub hlt.le hword]
  have hend : lo + pagesUp (hi - lo) = hi := by
    rw [add_pagesUp_sub hlo hlt.le, pagesUp_of_aligned hhi]
  have hvalid := validRange_sub hlo hhi hlt hword
  rcases env.book_cases c hvalid with hfail | hok
  · exact .inl hfail
  · refine .inr ⟨_, hok, ?_, fun p hp => ?_, fun b hb x hx => ?_⟩
    · rw [h.bookings]
    · refine (h.named p hp).mapFixed (hnames p hp) protNone hvalid ?_
      rw [hend]
      exact hapart p hp
    · rw [AddrSpace.mem_mappedSet_mapFixed, hend]
      rcases List.mem_append.1 hb with hb | hb
      · exact .inr (h.mapped b hb hx)
      · obtain rfl := List.mem_singleton.1 hb
        obtain ⟨hxlo, hxhi⟩ := MmapInfo.mem_range.1 hx
        simp only at hxlo hxhi
        exact .inl ⟨hxlo, by omega⟩

/-- A line of the maps file that is found. -/
theorem Named.firstArea {env : ConfineEnv}
    (hlists : ∀ s, ∃ l, env.kernel.procMaps s = some l ∧ Lists s l) {s : AddrSpace}
    {name : List UInt8} {g : Seg Mapping} (h : Named s name g) {p : Area → Bool}
    (hp : ∀ a : Area, p a = true → strstr a.name name = true)
    (hhit : ∀ a : Area, strstr a.name name = true → a.endAddr = g.hi → p a = true) :
    (env.firstArea s p).addr = g.lo ∧ (env.firstArea s p).endAddr = g.hi := by
  rcases hlists s with ⟨l, hl, hlist⟩
  rcases h.find hlist hp hhit with ⟨a, hfind, haddr, hend⟩
  simpa [ConfineEnv.firstArea, hl, hfind] using ⟨haddr, hend⟩

/-! ## All bookings -/

/-- What a process of rank `r` has in its memory at first. -/
structure RankLayout (s : AddrSpace) (brk sp r : Nat) (vvar vdso stack : Seg Mapping) : Prop where
  namedVvar : Named s vvarRegionName vvar
  namedVdso : Named s vdsoRegionName vdso
  namedStack : Named s stackRegionName stack
  sp_le : sp ≤ stack.hi
  brk_aligned : PageAligned brk
  brk_lt : brk < addrSpaceSize * (r + 1)
  window_lt : addrSpaceSize * (r + 2) < vvar.lo
  vvar_le : vvar.hi ≤ vdso.lo
  vdso_lt : vdso.hi < stack.lo

def rankBookings (brk r : Nat) (vvar vdso stack : Seg Mapping) : List MmapInfo :=
  [⟨brk, addrSpaceSize * (r + 1) - brk⟩,
      ⟨addrSpaceSize * (r + 2), vvar.lo - addrSpaceSize * (r + 2)⟩] ++
    (if vvar.hi < vdso.lo then [⟨vvar.hi, vdso.lo - vvar.hi⟩] else []) ++
      [⟨vdso.hi, stack.lo - vdso.hi⟩]

section Layout

variable {env : ConfineEnv} {s : AddrSpace} {brk r : Nat} {vvar vdso stack : Seg Mapping}

theorem RankLayout.addrSpaceBegin (h : RankLayout s brk env.sp r vvar vdso stack) :
    addrSpaceBegin r = addrSpaceSize * (r + 1) := by
  have hword := (s.bounded vvar h.namedVvar.mem).1
  have hwindow := h.window_lt
  unfold CkptRestart.addrSpaceBegin addrSpaceSize wrap toUnsigned wordSize at *
  omega

/-- The regions that the kernel has put into the memory. -/
def kernelRegions (vvar vdso stack : Seg Mapping) : List (List UInt8 × Seg Mapping) :=
  [(vvarRegionName, vvar), (vdsoRegionName, vdso), (stackRegionName, stack)]

theorem kernelRegions_ne_nil : ∀ p ∈ kernelRegions vvar vdso stack, p.1 ≠ [] := by
  simp [kernelRegions, vvarRegionName, vdsoRegionName, stackRegionName, cstr]

theorem RankLayout.named (h : RankLayout s brk env.sp r vvar vdso stack) :
    ∀ p ∈ kernelRegions vvar vdso stack, Named s p.1 p.2 := by
  intro p hp
  simp only [kernelRegions, List.mem_cons, List.not_mem_nil, or_false] at hp
  rcases hp with rfl | rfl | rfl
  · exact h.namedVvar
  · exact h.namedVdso
  · exact h.namedStack

/-- They are apart from what lies in front of one of them and behind the one before. -/
theorem RankLayout.apart (h : RankLayout s brk env.sp r vvar vdso stack) {lo hi : Nat}
    (hbetween : hi ≤ vvar.lo ∨ vvar.hi ≤ lo ∧ hi ≤ vdso.lo ∨ vdso.hi ≤ lo ∧ hi ≤ stack.lo) :
    ∀ p ∈ kernelRegions vvar vdso stack, p.2.Apart lo hi := by
  have hvvar := s.maps.nonempty vvar h.namedVvar.mem
  have hvdso := s.maps.nonempty vdso h.namedVdso.mem
  have hvvarLe := h.vvar_le
  have hvdsoLt := h.vdso_lt
  intro p hp
  simp only [kernelRegions, List.mem_cons, List.not_mem_nil, or_false] at hp
  rcases hp with rfl | rfl | rfl
  all_goals
    simp only [Seg.Apart]
    omega

section Regions

variable {bs : List MmapInfo} {c : Confined}
  (hlists : ∀ s, ∃ l, env.kernel.procMaps s = some l ∧ Lists s l)
include hlists

theorem Booked.getVvarRegion (h : Booked (kernelRegions vvar vdso stack) bs c) :
    (env.getVvarRegion c.space).addr = vvar.lo ∧ (env.getVvarRegion c.space).endAddr = vvar.hi :=
  have hnamed : Named c.space vvarRegionName vvar :=
    h.named (vvarRegionName, vvar) (by simp [kernelRegions])
  hnamed.firstArea hlists (fun _ ha => ha) (fun _ ha _ => ha)

theorem Booked.getVdsoRegion (h : Booked (kernelRegions vvar vdso stack) bs c) :
    (env.getVdsoRegion c.space).addr = vdso.lo ∧ (env.getVdsoRegion c.space).endAddr = vdso.hi :=
  have hnamed : Named c.space vdsoRegionName vdso :=
    h.named (vdsoRegionName, vdso) (by simp [kernelRegions])
  hnamed.firstArea hlists (fun _ ha => ha) (fun _ ha _ => ha)

theorem Booked.getStackRegion (h : Booked (kernelRegions vvar vdso stack) bs c)
    (hsp : env.sp ≤ stack.hi) :
    (env.getStackRegion c.space).addr = stack.lo ∧
      (env.getStackRegion c.space).endAddr = stack.hi := by
  have hnamed : Named c.space stackRegionName stack :=
    h.named (stackRegionName, stack) (by simp [kernelRegions])
  refine hnamed.firstArea hlists (fun a ha => ?_) (fun a ha hend => ?_)
  · exact (Bool.and_eq_true_iff.1 ha).1
  · rw [ha, hend]
    simpa using hsp

end Regions

/-- What is left free between the first two regions is booked too. -/
theorem RankLayout.bookGap (h : RankLayout s brk env.sp r vvar vdso stack) {bs : List MmapInfo}
    {c : Confined} (hc : Booked (kernelRegions vvar vdso stack) bs c) :
    Exec.OkUnless env.Refuses
      (Booked (kernelRegions vvar vdso stack)
        (bs ++ if vvar.hi < vdso.lo then [⟨vvar.hi, vdso.lo - vvar.hi⟩] else []))
      (env.bookNonempty vvar.hi (toUnsigned ((vdso.lo : Int) - vvar.hi)) c) := by
  have hvvarHi := (s.aligned vvar h.namedVvar.mem).2
  have hvdsoLo := (s.aligned vdso h.namedVdso.mem).1
  have hvdsoNe := s.maps.nonempty vdso h.namedVdso.mem
  have hword := (s.bounded vdso h.namedVdso.mem).1
  have hsize := toUnsigned_sub h.vvar_le (by omega : vdso.lo < wordSize)
  unfold ConfineEnv.bookNonempty
  by_cases hroom : vvar.hi < vdso.lo
  · rw [if_pos hroom, if_pos (by omega)]
    exact hc.book kernelRegions_ne_nil hvvarHi hvdsoLo hroom (by omega)
      (h.apart (.inr (.inl ⟨le_rfl, le_rfl⟩)))
  · rw [if_neg hroom, if_neg (by omega), List.append_nil]
    exact .of_ok hc

/-- The bookings are made one after the other, unless the kernel refuses. -/
theorem confineAddrSpace_booked
    (hlists : ∀ s, ∃ l, env.kernel.procMaps s = some l ∧ Lists s l)
    (h : RankLayout s brk env.sp r vvar vdso stack) :
    Exec.OkUnless env.Refuses
      (Booked (kernelRegions vvar vdso stack) (rankBookings brk r vvar vdso stack))
      (confineAddrSpace env r s brk) := by
  obtain ⟨hvvarLo, -⟩ := s.aligned vvar h.namedVvar.mem
  obtain ⟨-, hvdsoHi⟩ := s.aligned vdso h.namedVdso.mem
  obtain ⟨hstackLo, -⟩ := s.aligned stack h.namedStack.mem
  have hvvarNe := s.maps.nonempty vvar h.namedVvar.mem
  have hvdsoNe := s.maps.nonempty vdso h.namedVdso.mem
  have hword := (s.bounded stack h.namedStack.mem).1
  have hbrk := h.brk_lt
  have hwindow := h.window_lt
  have hvvar := h.vvar_le
  have hvdso := h.vdso_lt
  have hbegin := h.addrSpaceBegin
  have hnext : addrSpaceSize * (r + 2) = addrSpaceSize * (r + 1) + addrSpaceSize := rfl
  have hwindowEnd : wrap (addrSpaceBegin r + addrSpaceSize) = addrSpaceSize * (r + 2) := by
    rw [hbegin, hnext]
    exact wrap_of_lt (by omega)
  have hbeginAligned : ∀ n, PageAligned (addrSpaceSize * n) :=
    fun n => Nat.dvd_trans (by decide : pageSize ∣ addrSpaceSize) (Nat.dvd_mul_right addrSpaceSize n)
  have hpage : brk + pageSize ≤ addrSpaceSize * (r + 1) := by
    obtain ⟨k, hk⟩ := h.brk_aligned
    unfold addrSpaceSize pageSize at *
    omega
  have hpageLen : pagesUp pageSize = pageSize := pagesUp_of_aligned (by decide)
  have hvalid : ValidRange brk pageSize := ⟨h.brk_aligned, by decide, by omega⟩
  unfold confineAddrSpace
  rcases env.sbrkPage_cases s hvalid with ⟨hnone, hrefuse⟩ | hsome
  · rw [hnone]
    exact .inl ⟨rfl, hrefuse⟩
  rw [hsome, hwindowEnd, hbegin]
  have hstart : Booked (kernelRegions vvar vdso stack) []
      ⟨s.mapFixed brk pageSize (protRead ||| protWrite) hvalid, []⟩ := by
    refine ⟨rfl, fun p hp => ?_, fun b hb => absurd hb List.not_mem_nil⟩
    exact (h.named p hp).mapFixed (kernelRegions_ne_nil p hp) _ hvalid
      (h.apart (.inl (by omega)) p hp)
  -- up to the window
  refine (hstart.book kernelRegions_ne_nil h.brk_aligned (hbeginAligned (r + 1)) hbrk (by omega)
    (h.apart (.inl (by omega)))).bind fun c₁ hc₁ => ?_
  -- from the window to the first region
  obtain ⟨hvvarAddr, hvvarEnd⟩ := hc₁.getVvarRegion hlists
  dsimp only
  rw [hvvarAddr, hvvarEnd]
  refine (hc₁.book kernelRegions_ne_nil (hbeginAligned (r + 2)) hvvarLo hwindow (by omega)
    (h.apart (.inl le_rfl))).bind fun c₂ hc₂ => ?_
  -- between the two regions, if there is room
  obtain ⟨hvdsoAddr, hvdsoEnd⟩ := hc₂.getVdsoRegion hlists
  rw [hvdsoAddr, hvdsoEnd]
  refine (h.bookGap hc₂).bind fun c₃ hc₃ => ?_
  -- up to the stack
  obtain ⟨hstackAddr, -⟩ := hc₃.getStackRegion hlists h.sp_le
  rw [hstackAddr]
  exact hc₃.book kernelRegions_ne_nil hvdsoHi hstackLo hvdso (by omega)
    (h.apart (.inr (.inr ⟨le_rfl, le_rfl⟩)))

/-! ## Windows -/

/-- The addresses of a rank. -/
def window (r : Nat) : Set Nat := Set.Ico (addrSpaceSize * (r + 1)) (addrSpaceSize * (r + 2))

theorem disjoint_window {p q : Nat} (hne : p ≠ q) : Disjoint (window p) (window q) := by
  rw [window, window, Set.Ico_disjoint_Ico]
  unfold addrSpaceSize
  omega

theorem RankLayout.loadBase_mem (h : RankLayout s brk env.sp r vvar vdso stack) :
    loadBase r ∈ window r := by
  have hword := (s.bounded vvar h.namedVvar.mem).1
  have hwindow := h.window_lt
  simp only [loadBase, window, Set.mem_Ico]
  unfold addrSpaceSize wrap toUnsigned wordSize at *
  omega

/-- The bookings leave nothing free but the window, and touch neither it nor the regions. -/
structure Confines (brk r : Nat) (vvar vdso stack : Seg Mapping) (c : Confined) : Prop where
  closed : ∀ x, brk ≤ x → x < stack.lo → x ∉ c.space.mappedSet → x ∈ window r
  window : ∀ b ∈ c.bookings, Disjoint b.range (window r)
  regions : ∀ b ∈ c.bookings, ∀ g ∈ [vvar, vdso, stack], Disjoint b.range (Set.Ico g.lo g.hi)

theorem Named.mem_mappedSet {name : List UInt8} {g : Seg Mapping} (h : Named s name g) {x : Nat}
    (hx : g.Has x) : x ∈ s.mappedSet := by
  rw [AddrSpace.mem_mappedSet, RangeMap.lookup_eq_some_iff.2 ⟨g, h.mem, hx, rfl⟩]
  exact Option.some_ne_none _

/-- The ranges that are booked. -/
theorem RankLayout.mem_rankBookings (h : RankLayout s brk env.sp r vvar vdso stack) {x : Nat} :
    (∃ b ∈ rankBookings brk r vvar vdso stack, x ∈ b.range) ↔
      (brk ≤ x ∧ x < addrSpaceSize * (r + 1)) ∨ (addrSpaceSize * (r + 2) ≤ x ∧ x < vvar.lo) ∨
        (vvar.hi ≤ x ∧ x < vdso.lo) ∨ (vdso.hi ≤ x ∧ x < stack.lo) := by
  have hbrk := h.brk_lt
  have hwindow := h.window_lt
  have hvdso := h.vdso_lt
  by_cases hgap : vvar.hi < vdso.lo
  · simp only [rankBookings, if_pos hgap, List.cons_append, List.nil_append, List.mem_cons,
      List.not_mem_nil, or_false, exists_eq_or_imp, exists_eq_left, MmapInfo.mem_range]
    omega
  · simp only [rankBookings, if_neg hgap, List.cons_append, List.nil_append, List.mem_cons,
      List.not_mem_nil, or_false, exists_eq_or_imp, exists_eq_left, MmapInfo.mem_range]
    omega

theorem RankLayout.confines (h : RankLayout s brk env.sp r vvar vdso stack) {c : Confined}
    (hc : Booked (kernelRegions vvar vdso stack) (rankBookings brk r vvar vdso stack) c) :
    Confines brk r vvar vdso stack c := by
  have hvvarNe := s.maps.nonempty vvar h.namedVvar.mem
  have hvdsoNe := s.maps.nonempty vdso h.namedVdso.mem
  have hbrk := h.brk_lt
  have hwindow := h.window_lt
  have hvvar := h.vvar_le
  have hvdso := h.vdso_lt
  have hnext : addrSpaceSize * (r + 2) = addrSpaceSize * (r + 1) + addrSpaceSize := rfl
  have hbooked : ∀ b ∈ c.bookings, ∀ x ∈ b.range, _ := fun b hb x hx =>
    h.mem_rankBookings.1 ⟨b, hc.bookings ▸ hb, hx⟩
  refine ⟨fun x hlo hhi hx => ?_, fun b hb => ?_, fun b hb g hg => ?_⟩
  · -- what is free is in no booking and in no region
    have hfree := h.mem_rankBookings.not.1 fun ⟨b, hb, hxb⟩ => hx (hc.mapped b hb hxb)
    have hregion : ∀ p ∈ kernelRegions vvar vdso stack, ¬ p.2.Has x :=
      fun p hp hxp => hx ((hc.named p hp).mem_mappedSet hxp)
    simp only [kernelRegions, List.forall_mem_cons, Seg.Has] at hregion
    simp only [window, Set.mem_Ico]
    omega
  · refine Set.disjoint_left.2 fun x hx hwin => ?_
    have hin := hbooked b hb x hx
    simp only [window, Set.mem_Ico] at hwin
    omega
  · refine Set.disjoint_left.2 fun x hx hregion => ?_
    have hin := hbooked b hb x hx
    simp only [List.mem_cons, List.not_mem_nil, or_false] at hg
    rw [Set.mem_Ico] at hregion
    rcases hg with rfl | rfl | rfl
    all_goals omega

/-- The window of a rank is all that is left to it, the loader goes into it, and no two ranks share an
address. -/
theorem confineAddrSpace_confines
    (hlists : ∀ s, ∃ l, env.kernel.procMaps s = some l ∧ Lists s l)
    (h : RankLayout s brk env.sp r vvar vdso stack) {c : Confined}
    (hrun : confineAddrSpace env r s brk = .ok c) :
    Confines brk r vvar vdso stack c ∧ loadBase r ∈ window r ∧
      ∀ p q, p ≠ q → Disjoint (window p) (window q) :=
  ⟨h.confines ((confineAddrSpace_booked hlists h).of_eq_ok hrun), h.loadBase_mem,
    fun _ _ hne => disjoint_window hne⟩

end Layout

/-! ## A process of rank 0 -/

/-- The regions of the kernel, at addresses with room between them. -/
def rankSegs : Seg Mapping × Seg Mapping × Seg Mapping :=
  (⟨0x7fff00001000, 0x7fff00005000, ⟨protRead, vvarRegionName, by decide, by decide, by decide⟩⟩,
    ⟨0x7fff00007000, 0x7fff00009000, ⟨protRead, vdsoRegionName, by decide, by decide, by decide⟩⟩,
    ⟨0x7fff10000000, 0x7fff10021000, ⟨protRead ||| protWrite, stackRegionName, by decide, by decide,
      by decide⟩⟩)

def rankSpace : AddrSpace where
  maps := ⟨[rankSegs.1, rankSegs.2.1, rankSegs.2.2], by decide, by decide⟩
  bytes := fun _ => 0
  aligned := by decide
  bounded := by decide

def rankEnv : ConfineEnv where
  kernel := .plain
  refusesBrk := fun _ _ => none
  junk := ⟨0, 0, 0, 0, 0, 0, 0, 0, 0, 0, []⟩
  sp := 0x7fff10020000

/-- It is enough that all mappings with the text start at one place. -/
theorem Named.of_lo {s : AddrSpace} {name : List UInt8} {g : Seg Mapping} (hg : g ∈ s.maps.segs)
    (hhere : strstr g.val.name name = true)
    (hlo : ∀ t ∈ s.maps.segs, strstr t.val.name name = true → t.lo = g.lo) : Named s name g where
  mem := hg
  here := hhere
  only := fun t ht htext =>
    RangeMap.eq_of_has ht hg ⟨le_rfl, s.maps.nonempty t ht⟩
      (by rw [hlo t ht htext]; exact ⟨le_rfl, s.maps.nonempty g hg⟩)

theorem rankLayout_rankSpace :
    RankLayout rankSpace 0x2000000 rankEnv.sp 0 rankSegs.1 rankSegs.2.1 rankSegs.2.2 where
  namedVvar := .of_lo (by simp [rankSpace]) (by decide) (by decide)
  namedVdso := .of_lo (by simp [rankSpace]) (by decide) (by decide)
  namedStack := .of_lo (by simp [rankSpace]) (by decide) (by decide)
  sp_le := by decide
  brk_aligned := by decide
  brk_lt := by decide
  window_lt := by decide
  vvar_le := by decide
  vdso_lt := by decide

theorem confineAddrSpace_confines_rankZero :
    ∃ c, confineAddrSpace rankEnv 0 rankSpace 0x2000000 = .ok c ∧
      Confines 0x2000000 0 rankSegs.1 rankSegs.2.1 rankSegs.2.2 c ∧ loadBase 0 ∈ window 0 ∧
        ∀ p q, p ≠ q → Disjoint (window p) (window q) := by
  have hlists := Kernel.plain_lists
  have hwilling : ¬ rankEnv.Refuses := by
    rintro (⟨_, _, hrefuse⟩ | ⟨_, _, hrefuse⟩)
    · exact hrefuse rfl
    · exact hrefuse rfl
  obtain ⟨c, hrun, -⟩ := (confineAddrSpace_booked hlists rankLayout_rankSpace).ok hwilling
  exact ⟨c, hrun, confineAddrSpace_confines hlists rankLayout_rankSpace hrun⟩

end CkptRestart
