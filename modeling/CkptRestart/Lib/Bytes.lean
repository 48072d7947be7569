import Mathlib.Algebra.GroupWithZero.Nat
import Mathlib.Data.List.Basic

/-!
# Bytes — fixed-width fields and byte files

Two small vocabularies used by every stream of bytes in the development:

* `putWord` / `getWord` and `putString` / `getString`: a record laid out as little-endian words and
  NUL-terminated strings of fixed width.  A reader consumes exactly its own field and hands on the
  bytes after it, so the round trip of a record is the composition of the round trips of its fields.
* `overwrite`: what a write at an offset does to the contents of a file, a hole included.
-/

namespace CkptRestart
namespace Lib

/-! ## Words -/

/-- The `width` low base-256 digits of `v`, lowest first. -/
def putWord : Nat → Nat → List UInt8
  | 0, _ => []
  | width + 1, v => UInt8.ofNat v :: putWord width (v / 256)

/-- Read `width` digits, lowest first, and hand on the bytes after them. -/
def getWord : Nat → List UInt8 → Nat × List UInt8
  | 0, bs => (0, bs)
  | _ + 1, [] => (0, [])
  | width + 1, b :: bs =>
      (b.toNat + 256 * (getWord width bs).1, (getWord width bs).2)

@[simp] theorem length_putWord (width v : Nat) : (putWord width v).length = width := by
  induction width generalizing v with
  | zero => rfl
  | succ width ih => simp [putWord, ih]

/-- Reading a word back gives its value modulo the width, and the bytes that followed it. -/
theorem getWord_putWord (width v : Nat) (rest : List UInt8) :
    getWord width (putWord width v ++ rest) = (v % 256 ^ width, rest) := by
  induction width generalizing v with
  | zero => simp [putWord, getWord, Nat.mod_one]
  | succ width ih =>
      have hdigit : (UInt8.ofNat v).toNat = v % 256 := by simp
      have hsplit : v % 256 + 256 * (v / 256 % 256 ^ width) = v % 256 ^ (width + 1) := by
        rw [Nat.pow_succ', Nat.mod_mul]
      simp only [putWord, List.cons_append, getWord, ih, hdigit, hsplit]

theorem getWord_putWord_of_lt {width v : Nat} (h : v < 256 ^ width) (rest : List UInt8) :
    getWord width (putWord width v ++ rest) = (v, rest) := by
  rw [getWord_putWord, Nat.mod_eq_of_lt h]

theorem getWord_lt (width : Nat) (bs : List UInt8) : (getWord width bs).1 < 256 ^ width := by
  induction width generalizing bs with
  | zero => simp [getWord]
  | succ width ih =>
      cases bs with
      | nil => exact Nat.pow_pos (by decide)
      | cons b bs =>
          have hrest := ih bs
          have hbyte := b.toNat_lt
          rw [getWord, Nat.pow_succ]
          omega

/-- The word of `width` bytes at an offset. -/
def wordAt (width off : Nat) (bs : List UInt8) : Nat := (getWord width (bs.drop off)).1

theorem wordAt_lt (width off : Nat) (bs : List UInt8) : wordAt width off bs < 256 ^ width :=
  getWord_lt width (bs.drop off)

/-! ## Slices -/

/-- The `n` bytes from an offset on, as far as there are that many. -/
def slice (bs : List UInt8) (off n : Nat) : List UInt8 := (bs.drop off).take n

theorem length_slice {bs : List UInt8} {off n : Nat} (h : off + n ≤ bs.length) :
    (slice bs off n).length = n := by
  rw [slice, List.length_take, List.length_drop]
  omega

/-- The NUL-terminated string at an offset, if it ends inside the buffer. -/
def stringAt (bs : List UInt8) (off : Nat) : Option (List UInt8) :=
  if (0 : UInt8) ∈ bs.drop off then some ((bs.drop off).takeWhile (· ≠ 0)) else none

/-! ## Strings -/

/-- A string in a field of `width` bytes, cut off or filled up with NUL bytes. -/
def putString (width : Nat) (s : List UInt8) : List UInt8 :=
  s.take width ++ List.replicate (width - s.length) 0

/-- The string up to the first NUL of a field of `width` bytes, and the bytes after the field. -/
def getString (width : Nat) (bs : List UInt8) : List UInt8 × List UInt8 :=
  ((bs.take width).takeWhile (· ≠ 0), bs.drop width)

@[simp] theorem length_putString (width : Nat) (s : List UInt8) :
    (putString width s).length = width := by
  simp only [putString, List.length_append, List.length_take, List.length_replicate]
  omega

/-- A string without NUL bytes that fits its field is read back unchanged. -/
theorem getString_putString {width : Nat} {s : List UInt8} (hlen : s.length ≤ width)
    (hnul : (0 : UInt8) ∉ s) (rest : List UInt8) :
    getString width (putString width s ++ rest) = (s, rest) := by
  have hfield : (putString width s ++ rest).take width = putString width s :=
    List.take_left' (length_putString width s)
  have hkeep : ∀ b ∈ s, decide (b ≠ 0) = true := by
    intro b hb
    simpa using ne_of_mem_of_not_mem hb hnul
  have hstop : (List.replicate (width - s.length) (0 : UInt8)).takeWhile (· ≠ 0) = [] := by
    cases width - s.length with
    | zero => rfl
    | succ k => simp [List.replicate_succ]
  have hname : (putString width s).takeWhile (· ≠ 0) = s := by
    unfold putString
    rw [List.take_of_length_le hlen, List.takeWhile_append_of_pos hkeep, hstop, List.append_nil]
  have hrest : (putString width s ++ rest).drop width = rest :=
    List.drop_left' (length_putString width s)
  simp only [getString, hfield, hname, hrest]

/-! ## Files -/

section Files

variable {α : Type} (fill : α)

/-- What stands in front of a write at `off`: the old contents up to there, filled up if short. -/
def before (file : List α) (off : Nat) : List α :=
  file.take off ++ List.replicate (off - file.length) fill

/-- The contents of a file after `data` is written at offset `off`.  A gap between the old end of
the file and `off` is filled; writing nothing changes nothing. -/
def overwrite (file : List α) (off : Nat) (data : List α) : List α :=
  if data.isEmpty then file
  else
    file.take off ++ List.replicate (off - file.length) fill ++ data ++
      file.drop (off + data.length)

@[simp] theorem length_before (file : List α) (off : Nat) : (before fill file off).length = off := by
  simp only [before, List.length_append, List.length_take, List.length_replicate]
  omega

theorem before_of_le {file : List α} {off : Nat} (h : off ≤ file.length) :
    before fill file off = file.take off := by
  simp [before, Nat.sub_eq_zero_of_le h]

@[simp] theorem overwrite_nil (file : List α) (off : Nat) : overwrite fill file off [] = file := rfl

/-- A write of something is what stands before it, the data, and the old contents past the data. -/
theorem overwrite_of_ne_nil {data : List α} (h : data ≠ []) (file : List α) (off : Nat) :
    overwrite fill file off data =
      (before fill file off ++ data) ++ file.drop (off + data.length) := by
  simp [overwrite, before, h]

theorem overwrite_end (file data : List α) : overwrite fill file file.length data = file ++ data := by
  cases data with
  | nil => simp
  | cons d data => simp [overwrite]

/-- Up to the end of the data, a written file is what stood before the write, then the data. -/
theorem take_overwrite {data : List α} (h : data ≠ []) (file : List α) (off : Nat) :
    (overwrite fill file off data).take (off + data.length) = before fill file off ++ data := by
  rw [overwrite_of_ne_nil fill h]
  exact List.take_left' (by simp)

/-- From the end of the data on, a written file is as it was. -/
theorem drop_overwrite {data : List α} (h : data ≠ []) (file : List α) (off n : Nat) :
    (overwrite fill file off data).drop (off + data.length + n) =
      file.drop (off + data.length + n) := by
  rw [overwrite_of_ne_nil fill h, ← List.drop_drop, List.drop_left' (by simp), List.drop_drop]

/-- From the offset of the write on, a written file is the data, then the old contents past it. -/
theorem drop_overwrite_front (file data : List α) (off : Nat) :
    (overwrite fill file off data).drop off = data ++ file.drop (off + data.length) := by
  by_cases hdata : data = []
  · simp [hdata]
  · rw [overwrite_of_ne_nil fill hdata, List.append_assoc,
      List.drop_left' (length_before fill file off)]

/-- Two writes, the second where the first one ended, are one write of both. -/
theorem overwrite_overwrite (file a b : List α) (off : Nat) :
    overwrite fill (overwrite fill file off a) (off + a.length) b =
      overwrite fill file off (a ++ b) := by
  by_cases ha : a = []
  · simp [ha]
  by_cases hb : b = []
  · simp [hb]
  -- the first write reaches the offset of the second one, so no gap is left between them
  have hreach : off + a.length ≤ (overwrite fill file off a).length := by
    have hfront := congrArg List.length (take_overwrite fill ha file off)
    simp only [List.length_take, List.length_append, length_before] at hfront
    omega
  have hab : a ++ b ≠ [] := List.append_ne_nil_of_left_ne_nil ha b
  calc overwrite fill (overwrite fill file off a) (off + a.length) b
      = (before fill (overwrite fill file off a) (off + a.length) ++ b) ++
          (overwrite fill file off a).drop (off + a.length + b.length) :=
        overwrite_of_ne_nil fill hb _ _
    _ = ((before fill file off ++ a) ++ b) ++ file.drop (off + a.length + b.length) := by
        rw [before_of_le fill hreach, take_overwrite fill ha, drop_overwrite fill ha]
    _ = overwrite fill file off (a ++ b) := by
        rw [overwrite_of_ne_nil fill hab, List.length_append, Nat.add_assoc, List.append_assoc _ a b]

/-- A write that goes on where the file agrees with `whole`, and writes what comes next in it,
leaves a file that agrees with it further and is no longer than it. -/
theorem overwrite_agrees {file whole data rest : List α} {off : Nat}
    (hagree : file.take off = whole.take off) (hlen : file.length ≤ whole.length)
    (hoff : off ≤ whole.length) (hnext : whole.drop off = data ++ rest) :
    (overwrite fill file off data).take (off + data.length) = whole.take (off + data.length) ∧
      (overwrite fill file off data).length ≤ whole.length := by
  by_cases hdata : data = []
  · exact ⟨by simpa [hdata] using hagree, by simpa [hdata] using hlen⟩
  have hreach : off ≤ file.length := by
    have := congrArg List.length hagree
    simp only [List.length_take] at this
    omega
  have hroom : off + data.length ≤ whole.length := by
    have := congrArg List.length hnext
    simp only [List.length_drop, List.length_append] at this
    omega
  constructor
  · calc (overwrite fill file off data).take (off + data.length)
        = file.take off ++ data := by rw [take_overwrite fill hdata, before_of_le fill hreach]
      _ = whole.take off ++ (whole.drop off).take data.length := by
          rw [hagree, hnext, List.take_left' rfl]
      _ = whole.take (off + data.length) := List.take_add.symm
  · rw [overwrite_of_ne_nil fill hdata]
    simp only [List.length_append, length_before, List.length_drop]
    omega

/-- A string copied with its NUL to the front of a zeroed buffer. -/
theorem overwrite_zeros {n : Nat} {s : List UInt8} (h : s.length < n) :
    overwrite 0 (List.replicate n 0) 0 (s ++ [0]) = putString n s := by
  obtain ⟨m, rfl⟩ : ∃ m, n = s.length + (m + 1) := ⟨n - s.length - 1, by omega⟩
  have htake : s.take (s.length + (m + 1)) = s := List.take_of_length_le (Nat.le_add_right _ _)
  have hdrop : (List.replicate (s.length + (m + 1)) (0 : UInt8)).drop (s.length + 1) =
      List.replicate m 0 := by
    rw [List.drop_replicate]
    congr 1
    omega
  rw [overwrite_of_ne_nil 0 (by simp), before_of_le 0 (Nat.zero_le _), putString, htake]
  simp [hdrop, List.replicate_succ]

end Files

end Lib
end CkptRestart
