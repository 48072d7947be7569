import Mathlib.Algebra.GroupWithZero.Nat
import Mathlib.Data.List.Infix
import Mathlib.Data.List.Pairwise
import Mathlib.Order.CompletePartialOrder
import Mathlib.Order.Interval.Set.Disjoint

/-!
# Common — machine words, pages and the structures both halves share

The definitions of `common.h`, `ckpt-restart.h` and the in-memory side of `procmapsarea.h`.
Addresses and sizes are natural numbers; an operation of the C code that can leave 64 bits is
written with `wrap`, and a conversion between signed and unsigned is written out.
-/

namespace CkptRestart

/-! ## Words and pages -/

def wordSize : Nat := 2 ^ 64

/-- The value of an unsigned 64-bit expression. -/
def wrap (n : Nat) : Nat := n % wordSize

/-- A signed value converted to `size_t` or `uintptr_t`. -/
def toUnsigned (i : Int) : Nat := (i % (wordSize : Int)).toNat

/-- A `size_t` converted to `ssize_t`. -/
def toSigned (n : Nat) : Int :=
  if wrap n < 2 ^ 63 then (wrap n : Int) else (wrap n : Int) - (wordSize : Int)

/-- An `int` assigned from a wider value. -/
def toInt32 (i : Int) : Int := i.bmod (2 ^ 32)

def pageSize : Nat := 0x1000

def roundUp (x : Nat) : Nat := wrap (x + pageSize - 1) / pageSize * pageSize

def roundDown (x : Nat) : Nat := x / pageSize * pageSize

def pageOffset (x : Nat) : Nat := x % pageSize

def PageAligned (x : Nat) : Prop := pageSize ∣ x

instance (x : Nat) : Decidable (PageAligned x) := by
  unfold PageAligned
  infer_instance

theorem wrap_of_lt {n : Nat} (h : n < wordSize) : wrap n = n := Nat.mod_eq_of_lt h

theorem toUnsigned_toSigned {n : Nat} (h : n < wordSize) : toUnsigned (toSigned n) = n := by
  have hn : wrap n = n := wrap_of_lt h
  unfold toUnsigned toSigned
  rw [hn]
  unfold wordSize at *
  split <;> omega

theorem toUnsigned_natCast {n : Nat} (h : n < wordSize) : toUnsigned (n : Int) = n := by
  unfold toUnsigned wordSize at *
  omega

theorem toSigned_of_lt {n : Nat} (h : n < 2 ^ 63) : toSigned n = n := by
  have hn : wrap n = n := wrap_of_lt (lt_trans h (by decide))
  rw [toSigned, hn, if_pos h]

theorem toSigned_of_nonneg {n : Nat} (h : n < wordSize) (hpos : 0 ≤ toSigned n) :
    toSigned n = n := by
  have hn : wrap n = n := wrap_of_lt h
  rw [toSigned, hn] at hpos ⊢
  unfold wordSize at *
  split at hpos
  · rename_i hlt
    rw [if_pos hlt]
  · omega

/-- Only the largest word is the error value. -/
theorem toSigned_ne_neg_one {n : Nat} (h : n + 1 < wordSize) : toSigned n ≠ -1 := by
  have hn : wrap n = n := wrap_of_lt (Nat.lt_of_succ_lt h)
  unfold toSigned
  rw [hn]
  unfold wordSize at *
  split <;> omega

/-! ## Protections, flags and errors -/

def protNone : Nat := 0
def protRead : Nat := 1
def protWrite : Nat := 2
def protExec : Nat := 4

def mapShared : Nat := 0x01
def mapPrivate : Nat := 0x02
def mapFixed : Nat := 0x10
def mapAnonymous : Nat := 0x20
def mapGrowsDown : Nat := 0x100

/-- `MAP_FAILED`, also the `(void*)-1` that `sbrk` returns. -/
def mapFailed : Nat := wordSize - 1

/-- The values of `errno` that the code sets or looks at, and some that the kernel reports. -/
inductive Errno
  | EINTR
  | EAGAIN
  | ENOSPC
  | EFAULT
  | EIO
  | EINVAL
  | ENOMEM
  | EPERM
  deriving DecidableEq, Repr

/-! ## C strings -/

/-- A C character constant. -/
def chr (c : Char) : UInt8 := UInt8.ofNat c.toNat

/-- The bytes of a C string literal. -/
def cstr (s : List Char) : List UInt8 := s.map fun c => UInt8.ofNat c.toNat

def strstr (hay needle : List UInt8) : Bool := decide (needle <:+: hay)

/-! ## Structures of both halves -/

structure LowerHalfInfo where
  lhSbrk : Nat
  lhMmap : Nat
  lhDlsym : Nat
  lhFsAddr : Nat
  lhMmapListFptr : Nat
  deriving DecidableEq, Repr

structure MmapInfo where
  addr : Nat
  len : Nat
  deriving DecidableEq, Repr

inductive CkptOrRestore
  | RUNNING
  | POST_RESUME
  | POST_RESTART
  deriving DecidableEq, Repr

/-- One line of `/proc/self/maps` as `readMapsLine` leaves it in memory. -/
structure Area where
  addr : Nat
  endAddr : Nat
  size : Nat
  offset : Nat
  prot : Nat
  flags : Nat
  devmajor : Nat
  devminor : Nat
  inodenum : Nat
  properties : Nat
  name : List UInt8
  deriving DecidableEq, Repr

/-- `regionContains`: the needle lies in the haystack. -/
def regionContains (haystackStart haystackEnd needleStart needleEnd : Nat) : Bool :=
  decide (needleStart ≥ haystackStart) && decide (needleEnd ≤ haystackEnd)

def doAreasOverlap (addr1 size1 addr2 size2 : Nat) : Bool :=
  -- both ends are computed in 64 bits
  let end1 := wrap (addr1 + size1)
  let end2 := wrap (addr2 + size2)
  (decide (addr1 ≥ addr2) && decide (addr1 < end2)) ||
    (decide (addr2 ≥ addr1) && decide (addr2 < end1))

@[simp] theorem regionContains_iff {hs he ns ne : Nat} :
    regionContains hs he ns ne = true ↔ hs ≤ ns ∧ ne ≤ he := by
  simp [regionContains]

/-- For two ranges that do not wrap, the overlap test is what it says unless both are empty. -/
theorem doAreasOverlap_iff {addr1 size1 addr2 size2 : Nat}
    (h1 : addr1 + size1 < wordSize) (h2 : addr2 + size2 < wordSize) :
    doAreasOverlap addr1 size1 addr2 size2 = true ↔
      (addr2 ≤ addr1 ∧ addr1 < addr2 + size2) ∨ (addr1 ≤ addr2 ∧ addr2 < addr1 + size1) := by
  simp [doAreasOverlap, wrap_of_lt h1, wrap_of_lt h2]

/-! ## Areas as sets of addresses -/

namespace Area

def range (a : Area) : Set Nat := Set.Ico a.addr a.endAddr

@[simp] theorem mem_range {a : Area} {x : Nat} : x ∈ a.range ↔ a.addr ≤ x ∧ x < a.endAddr :=
  Iff.rfl

/-- `area->prot & PROT_READ` -/
def readable (a : Area) : Bool := decide (a.prot &&& protRead ≠ 0)

end Area

namespace MmapInfo

def range (t : MmapInfo) : Set Nat := Set.Ico t.addr (t.addr + t.len)

@[simp] theorem mem_range {t : MmapInfo} {x : Nat} :
    x ∈ t.range ↔ t.addr ≤ x ∧ x < t.addr + t.len := Iff.rfl

end MmapInfo

/-- The values that `readMapsLine` can leave in an area: words, three bits of protection, and a name
that fits its field. -/
structure Area.Fits (a : Area) : Prop where
  addr : a.addr < wordSize
  endAddr : a.endAddr < wordSize
  size : a.size < wordSize
  offset : a.offset < wordSize
  prot : a.prot < 8
  flags : a.flags < 2 ^ 32
  devmajor : a.devmajor < wordSize
  devminor : a.devminor < wordSize
  inodenum : a.inodenum < wordSize
  properties : a.properties < wordSize
  name_length : a.name.length < 1024
  name_nul : (0 : UInt8) ∉ a.name

/-- What successive calls of `readMapsLine` return for one reading of `/proc/self/maps`:
page-aligned areas that do not overlap. -/
structure MapsSnapshot where
  areas : List Area
  fits : ∀ a ∈ areas, a.Fits
  ordered : ∀ a ∈ areas, a.addr ≤ a.endAddr
  sized : ∀ a ∈ areas, a.size = a.endAddr - a.addr
  aligned : ∀ a ∈ areas, PageAligned a.addr ∧ PageAligned a.endAddr
  disjoint : areas.Pairwise fun a b => Disjoint a.range b.range

/-- For a listed area and a range that does not wrap, the overlap test is what it says. -/
theorem MapsSnapshot.doAreasOverlap_iff (l : MapsSnapshot) {p : Area} (hp : p ∈ l.areas)
    {addr size : Nat} (hroom : addr + size < wordSize) :
    doAreasOverlap p.addr p.size addr size = true ↔
      (addr ≤ p.addr ∧ p.addr < addr + size) ∨ (p.addr ≤ addr ∧ addr < p.endAddr) := by
  have hend : p.addr + p.size = p.endAddr := by
    rw [l.sized p hp]
    exact Nat.add_sub_cancel' (l.ordered p hp)
  have hfits : p.addr + p.size < wordSize := by
    rw [hend]
    exact (l.fits p hp).endAddr
  rw [CkptRestart.doAreasOverlap_iff hfits hroom, hend]

/-- Among areas that do not overlap, two that share an address are the same. -/
theorem Area.eq_of_mem_range {areas : List Area}
    (hdis : areas.Pairwise fun a b => Disjoint a.range b.range) {a b : Area} (ha : a ∈ areas)
    (hb : b ∈ areas) {x : Nat} (hxa : x ∈ a.range) (hxb : x ∈ b.range) : a = b := by
  have : Std.Symm fun a b : Area => Disjoint a.range b.range := ⟨fun _ _ h => h.symm⟩
  by_contra hne
  exact Set.disjoint_left.1 (hdis.forall ha hb hne) hxa hxb

end CkptRestart
