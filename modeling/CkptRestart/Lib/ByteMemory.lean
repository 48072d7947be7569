import Mathlib.Data.List.GetD
import CkptRestart.Lib.Bytes

/-!
# ByteMemory — words, vectors and strings in a memory of bytes

A memory is a byte at every address.  A word is stored lowest byte first, a vector is one word behind
the other, and a string ends with a NUL byte.

* What a store does is said by two facts: what is there afterwards, and that everything outside its
  range is as before.
* `load_congr`, `WordsAt.congr` and `StringAt.congr`: what is at a place depends on its bytes only.
  They relate two memories and two addresses, so they are the rules for a frame and for a copy alike.
-/

namespace CkptRestart
namespace Lib

abbrev ByteMem := Nat → UInt8

namespace ByteMem

/-! ## Bytes -/

/-- The bytes from an address on. -/
def bytes (m : ByteMem) (addr n : Nat) : List UInt8 := (List.range n).map fun i => m (addr + i)

def store (m : ByteMem) (addr : Nat) (data : List UInt8) : ByteMem := fun x =>
  if addr ≤ x ∧ x < addr + data.length then data.getD (x - addr) 0 else m x

/-- `memcpy(dst, src, n)` -/
def copy (m : ByteMem) (dst src n : Nat) : ByteMem := fun x =>
  if dst ≤ x ∧ x < dst + n then m (src + (x - dst)) else m x

/-- `memset(dst, b, n)` -/
def fill (m : ByteMem) (dst : Nat) (b : UInt8) (n : Nat) : ByteMem := fun x =>
  if dst ≤ x ∧ x < dst + n then b else m x

theorem store_outside (m : ByteMem) {addr : Nat} {data : List UInt8} {x : Nat}
    (hx : x < addr ∨ addr + data.length ≤ x) : m.store addr data x = m x :=
  if_neg (by omega)

theorem store_inside (m : ByteMem) (addr : Nat) {data : List UInt8} {i : Nat}
    (hi : i < data.length) : m.store addr data (addr + i) = data[i] := by
  have hx : addr ≤ addr + i ∧ addr + i < addr + data.length :=
    ⟨Nat.le_add_right _ _, Nat.add_lt_add_left hi _⟩
  rw [store, if_pos hx, Nat.add_sub_cancel_left, List.getD_eq_getElem?_getD,
    List.getElem?_eq_getElem hi]
  rfl

theorem copy_inside (m : ByteMem) (dst src : Nat) {n i : Nat} (hi : i < n) :
    m.copy dst src n (dst + i) = m (src + i) := by
  rw [copy, if_pos ⟨Nat.le_add_right _ _, Nat.add_lt_add_left hi _⟩, Nat.add_sub_cancel_left]

theorem copy_outside (m : ByteMem) {dst src n x : Nat} (hx : x < dst ∨ dst + n ≤ x) :
    m.copy dst src n x = m x :=
  if_neg (by omega)

theorem fill_outside (m : ByteMem) {dst n x : Nat} (b : UInt8) (hx : x < dst ∨ dst + n ≤ x) :
    m.fill dst b n x = m x :=
  if_neg (by omega)

theorem bytes_congr {m m' : ByteMem} {a a' n : Nat} (h : ∀ i < n, m' (a' + i) = m (a + i)) :
    m'.bytes a' n = m.bytes a n := by
  apply List.map_congr_left
  intro i hi
  exact h i (List.mem_range.1 hi)

theorem bytes_store (m : ByteMem) (addr : Nat) (data : List UInt8) :
    (m.store addr data).bytes addr data.length = data := by
  apply List.ext_getElem
  · simp [bytes]
  · intro i _ hi
    simp only [bytes, List.getElem_map, List.getElem_range]
    exact m.store_inside addr hi

/-- A store inside of what has just been stored replaces a piece of it. -/
theorem store_store_inside (m : ByteMem) (addr : Nat) {front old new back : List UInt8}
    (hlen : new.length = old.length) :
    (m.store addr (front ++ old ++ back)).store (addr + front.length) new =
      m.store addr (front ++ new ++ back) := by
  funext x
  simp only [store, List.length_append, hlen]
  by_cases hin : addr ≤ x ∧ x < addr + (front.length + old.length + back.length)
  · rw [if_pos hin, if_pos hin]
    obtain ⟨i, rfl⟩ := Nat.exists_eq_add_of_le hin.1
    by_cases hpiece : addr + front.length ≤ addr + i ∧ addr + i < addr + front.length + old.length
    · rw [if_pos hpiece, List.append_assoc, List.getD_append_right _ _ _ _ (by omega),
        List.getD_append _ _ _ _ (by omega)]
      congr 1
      omega
    · rw [if_neg hpiece]
      -- before the piece, or behind it
      rcases Nat.lt_or_ge i front.length with hfront | hback
      · rw [List.append_assoc, List.append_assoc, List.getD_append _ _ _ _ (by omega),
          List.getD_append _ _ _ _ (by omega)]
      · rw [List.getD_append_right _ _ _ _ (by rw [List.length_append]; omega),
          List.getD_append_right _ _ _ _ (by rw [List.length_append]; omega)]
        simp only [List.length_append, hlen]
  · rw [if_neg hin, if_neg hin, if_neg (by omega)]

/-! ## Words -/

/-- The word of `width` bytes at an address. -/
def load (width : Nat) (m : ByteMem) (addr : Nat) : Nat := (getWord width (m.bytes addr width)).1

def storeWord (m : ByteMem) (addr v : Nat) : ByteMem := m.store addr (putWord 8 v)

theorem load_congr {width : Nat} {m m' : ByteMem} {a a' : Nat}
    (h : ∀ i < width, m' (a' + i) = m (a + i)) : load width m' a' = load width m a := by
  rw [load, load, bytes_congr h]

theorem load_storeWord (m : ByteMem) (addr : Nat) {v : Nat} (hv : v < 256 ^ 8) :
    load 8 (m.storeWord addr v) addr = v := by
  have hbytes := m.bytes_store addr (putWord 8 v)
  rw [length_putWord] at hbytes
  have hread := getWord_putWord_of_lt hv []
  rw [List.append_nil] at hread
  rw [load, storeWord, hbytes, hread]

theorem storeWord_outside (m : ByteMem) {addr v x : Nat} (hx : x < addr ∨ addr + 8 ≤ x) :
    m.storeWord addr v x = m x := by
  apply store_outside
  rwa [length_putWord]

/-! ## Vectors -/

/-- Words one behind the other. -/
def WordsAt (m : ByteMem) : Nat → List Nat → Prop
  | _, [] => True
  | addr, w :: ws => load 8 m addr = w ∧ WordsAt m (addr + 8) ws

theorem WordsAt.congr {m m' : ByteMem} {a a' : Nat} {ws : List Nat} (h : m.WordsAt a ws)
    (heq : ∀ i < 8 * ws.length, m' (a' + i) = m (a + i)) : m'.WordsAt a' ws := by
  induction ws generalizing a a' with
  | nil => trivial
  | cons w ws ih =>
      rw [List.length_cons, Nat.mul_succ] at heq
      refine ⟨(load_congr fun i hi => heq i (by omega)).trans h.1, ih h.2 fun i hi => ?_⟩
      rw [Nat.add_assoc, Nat.add_assoc]
      exact heq (8 + i) (by omega)

theorem wordsAt_append {m : ByteMem} {a : Nat} {xs ys : List Nat} :
    m.WordsAt a (xs ++ ys) ↔ m.WordsAt a xs ∧ m.WordsAt (a + 8 * xs.length) ys := by
  induction xs generalizing a with
  | nil => simp [WordsAt]
  | cons x xs ih =>
      have hnext : a + 8 + 8 * xs.length = a + 8 * (xs.length + 1) := by omega
      simp only [List.cons_append, WordsAt, ih, hnext, List.length_cons, and_assoc]

instance decidableWordsAt (m : ByteMem) : ∀ addr ws, Decidable (m.WordsAt addr ws)
  | _, [] => isTrue trivial
  | addr, _ :: ws => @instDecidableAnd _ _ _ (decidableWordsAt m (addr + 8) ws)

/-- `m'` has these words at the address, and is `m` everywhere else. -/
structure Rewritten (m m' : ByteMem) (a : Nat) (ws : List Nat) : Prop where
  words : m'.WordsAt a ws
  frame : ∀ x, x < a ∨ a + 8 * ws.length ≤ x → m' x = m x

theorem Rewritten.refl {m : ByteMem} {a : Nat} {ws : List Nat} (h : m.WordsAt a ws) :
    Rewritten m m a ws :=
  ⟨h, fun _ _ => rfl⟩

theorem rewritten_storeWord (m : ByteMem) (a : Nat) {v : Nat} (hv : v < 256 ^ 8) :
    Rewritten m (m.storeWord a v) a [v] :=
  ⟨⟨load_storeWord m a hv, trivial⟩, fun _ hx => storeWord_outside m hx⟩

/-- Words of a vector are rewritten, and as many are there as before. -/
theorem Rewritten.splice {m m₁ m₂ : ByteMem} {a : Nat} {xs ys ys' zs : List Nat}
    (h : Rewritten m m₁ a (xs ++ ys ++ zs)) (h' : Rewritten m₁ m₂ (a + 8 * xs.length) ys')
    (hlen : ys'.length = ys.length) : Rewritten m m₂ a (xs ++ ys' ++ zs) := by
  obtain ⟨⟨hxs, -⟩, hzs⟩ : (m₁.WordsAt a xs ∧ m₁.WordsAt (a + 8 * xs.length) ys) ∧
      m₁.WordsAt (a + 8 * (xs ++ ys).length) zs := by
    simpa only [wordsAt_append] using h.words
  have hframe := h.frame
  simp only [List.length_append] at hzs hframe
  -- the words on both sides are outside of what the second step writes
  refine ⟨wordsAt_append.2 ⟨wordsAt_append.2 ⟨?_, h'.words⟩, ?_⟩, fun x hx => ?_⟩
  · exact hxs.congr fun i hi => h'.frame (a + i) (by omega)
  · rw [List.length_append, hlen]
    exact hzs.congr fun i _ => h'.frame _ (by omega)
  · simp only [List.length_append] at hx
    calc m₂ x = m₁ x := h'.frame x (by omega)
      _ = m x := hframe x (by omega)

theorem Rewritten.append {m m₁ m₂ : ByteMem} {a : Nat} {xs ys : List Nat}
    (h : Rewritten m m₁ a xs) (h' : Rewritten m₁ m₂ (a + 8 * xs.length) ys) :
    Rewritten m m₂ a (xs ++ ys) := by
  refine ⟨wordsAt_append.2 ⟨h.words.congr fun i hi => h'.frame (a + i) (by omega), h'.words⟩,
    fun x hx => ?_⟩
  rw [List.length_append] at hx
  calc m₂ x = m₁ x := h'.frame x (by omega)
    _ = m x := h.frame x (by omega)

/-! ## Strings -/

/-- A string with its NUL byte. -/
def StringAt (m : ByteMem) : Nat → List UInt8 → Prop
  | p, [] => m p = 0
  | p, c :: s => (m p = c ∧ c ≠ 0) ∧ StringAt m (p + 1) s

instance decidableStringAt (m : ByteMem) : ∀ p s, Decidable (m.StringAt p s)
  | p, [] => decEq (m p) 0
  | p, _ :: s => @instDecidableAnd _ _ _ (decidableStringAt m (p + 1) s)

/-- The string at an address, if it ends in less than `fuel` bytes. -/
def readString (m : ByteMem) : Nat → Nat → Option (List UInt8)
  | 0, _ => none
  | fuel + 1, p => if m p = 0 then some [] else (readString m fuel (p + 1)).map (m p :: ·)

theorem StringAt.congr {m m' : ByteMem} {p p' : Nat} {s : List UInt8} (h : m.StringAt p s)
    (heq : ∀ i ≤ s.length, m' (p' + i) = m (p + i)) : m'.StringAt p' s := by
  induction s generalizing p p' with
  | nil => exact (heq 0 (Nat.le_refl _)).trans h
  | cons c s ih =>
      rw [List.length_cons] at heq
      refine ⟨⟨(heq 0 (Nat.zero_le _)).trans h.1.1, h.1.2⟩, ih h.2 fun i hi => ?_⟩
      rw [Nat.add_assoc, Nat.add_assoc]
      exact heq (1 + i) (by omega)

theorem readString_eq {m : ByteMem} {p : Nat} {s : List UInt8} (h : m.StringAt p s) {fuel : Nat}
    (hfuel : s.length < fuel) : m.readString fuel p = some s := by
  induction s generalizing p fuel with
  | nil =>
      cases fuel with
      | zero => exact absurd hfuel (Nat.not_lt_zero _)
      | succ fuel => exact if_pos h
  | cons c s ih =>
      cases fuel with
      | zero => exact absurd hfuel (Nat.not_lt_zero _)
      | succ fuel =>
          have hne : m p ≠ 0 := by
            rw [h.1.1]
            exact h.1.2
          rw [readString, if_neg hne, ih h.2 (Nat.lt_of_succ_lt_succ hfuel), h.1.1]
          rfl

theorem StringAt.unique {m : ByteMem} {p : Nat} {s t : List UInt8} (hs : m.StringAt p s)
    (ht : m.StringAt p t) : s = t := by
  have hread := readString_eq hs (Nat.lt_succ_of_le (Nat.le_max_left s.length t.length))
  have hread' := readString_eq ht (Nat.lt_succ_of_le (Nat.le_max_right s.length t.length))
  exact Option.some.inj (hread.symm.trans hread')

theorem bytes_succ (m : ByteMem) (p n : Nat) : m.bytes p (n + 1) = m p :: m.bytes (p + 1) n := by
  simp only [bytes, List.range_succ_eq_map, List.map_cons, List.map_map, Nat.add_zero]
  congr 1
  apply List.map_congr_left
  intro i _
  simp only [Function.comp_apply, Nat.succ_eq_add_one, Nat.add_assoc, Nat.add_comm 1 i]

/-- Bytes of which none is NUL are at the address of a string when the string begins with them. -/
theorem StringAt.bytes_eq_iff {m : ByteMem} {p : Nat} {s w : List UInt8} (h : m.StringAt p s)
    (hw : (0 : UInt8) ∉ w) : m.bytes p w.length = w ↔ w <+: s := by
  induction w generalizing p s with
  | nil => simp [bytes]
  | cons c w ih =>
      rw [List.mem_cons, not_or] at hw
      rw [List.length_cons, bytes_succ]
      cases s with
      | nil =>
          -- the string has ended, and its NUL byte is not `c`
          have hfirst : m p ≠ c := by
            rw [show m p = 0 from h]
            exact hw.1
          simp [hfirst]
      | cons d s =>
          have hfirst : m p = d := h.1.1
          rw [hfirst, List.cons.injEq, List.cons_prefix_cons, ih h.2 hw.2, eq_comm]

/-- Bytes of which none is NUL, and a string behind them. -/
theorem stringAt_append {m : ByteMem} {p : Nat} {w s : List UInt8} (hw : (0 : UInt8) ∉ w)
    (hbytes : m.bytes p w.length = w) (h : m.StringAt (p + w.length) s) : m.StringAt p (w ++ s) := by
  induction w generalizing p with
  | nil => exact h
  | cons c w ih =>
      rw [List.mem_cons, not_or] at hw
      rw [List.length_cons, bytes_succ, List.cons.injEq] at hbytes
      rw [List.length_cons, Nat.add_comm w.length 1, ← Nat.add_assoc] at h
      exact ⟨⟨hbytes.1, fun hc => hw.1 hc.symm⟩, ih hw.2 hbytes.2 h⟩

/-- What is left of a string is a string. -/
theorem StringAt.drop {m : ByteMem} {p n : Nat} {s : List UInt8} (h : m.StringAt p s)
    (hn : n ≤ s.length) : m.StringAt (p + n) (s.drop n) := by
  induction n generalizing p s with
  | zero => exact h
  | succ n ih =>
      cases s with
      | nil => exact absurd hn (Nat.not_succ_le_zero n)
      | cons c s =>
          have hrest := ih h.2 (Nat.le_of_succ_le_succ hn)
          rwa [Nat.add_assoc, Nat.add_comm 1 n] at hrest

end ByteMem

end Lib
end CkptRestart
