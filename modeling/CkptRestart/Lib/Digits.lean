import Mathlib.Data.Nat.Digits.Lemmas

/-!
# Digits — numerals with the most significant digit first

A numeral is a list of digits in a base, padded with zeros to a width.  Reading it from the left,
multiplying by the base and adding the next digit, gives the number back; so does reading it in
arithmetic modulo some bound.
-/

namespace CkptRestart
namespace Lib

/-- The value of the digits `ds` read behind a numeral of the value `v`. -/
def readDigits (base : Nat) (v : Nat) (ds : List Nat) : Nat :=
  ds.foldl (fun v d => v * base + d) v

@[simp] theorem readDigits_nil (base v : Nat) : readDigits base v [] = v := rfl

@[simp] theorem readDigits_cons (base v d : Nat) (ds : List Nat) :
    readDigits base v (d :: ds) = readDigits base (v * base + d) ds := rfl

/-- The digits of `n`, at least `width` of them. -/
def numeral (base width n : Nat) : List Nat := (Nat.digits base n).reverse.leftpad width 0

theorem lt_of_mem_numeral {base width n d : Nat} (hbase : 1 < base) (h : d ∈ numeral base width n) :
    d < base := by
  rcases List.mem_append.1 h with hzero | hdigit
  · rw [List.eq_of_mem_replicate hzero]
    exact lt_trans Nat.one_pos hbase
  · exact Nat.digits_lt_base hbase (List.mem_reverse.1 hdigit)

theorem readDigits_zeros (base k : Nat) (ds : List Nat) :
    readDigits base 0 (List.replicate k 0 ++ ds) = readDigits base 0 ds := by
  induction k with
  | zero => rfl
  | succ k ih => simpa [List.replicate_succ] using ih

/-- Reading a numeral gives the number back. -/
theorem readDigits_numeral (base width n : Nat) : readDigits base 0 (numeral base width n) = n := by
  have hfold : readDigits base 0 (Nat.digits base n).reverse = Nat.ofDigits base (Nat.digits base n) := by
    rw [readDigits, List.foldl_reverse, Nat.ofDigits_eq_foldr]
    simp [Nat.mul_comm, Nat.add_comm]
  calc readDigits base 0 (numeral base width n)
      = readDigits base 0 (Nat.digits base n).reverse := readDigits_zeros _ _ _
    _ = Nat.ofDigits base (Nat.digits base n) := hfold
    _ = n := Nat.ofDigits_digits base n

/-- Reading modulo a bound gives the value modulo that bound. -/
theorem foldl_mod_eq (base bound v : Nat) (ds : List Nat) :
    ds.foldl (fun v d => (v * base + d) % bound) (v % bound) = readDigits base v ds % bound := by
  induction ds generalizing v with
  | nil => rfl
  | cons d ds ih =>
      have hstep : (v % bound * base + d) % bound = (v * base + d) % bound := by
        simp [Nat.add_mod, Nat.mul_mod]
      rw [List.foldl_cons, hstep, ih, readDigits_cons]

end Lib
end CkptRestart
