import Mathlib.Data.List.Basic
import Mathlib.Data.List.Induction

/-!
# RingLog — a table of fixed size that is written round and round

The next entry goes to cell `next`, and `next` advances modulo the capacity.  A reader that takes
the first `next` cells for the valid ones sees exactly the entries pushed since `next` last came
round to zero (`valid_pushAll`): all of them only while fewer than `cap` have been pushed.
-/

namespace CkptRestart
namespace Lib

structure RingLog (α : Type) where
  next : Nat
  cells : List α
  deriving DecidableEq, Repr

namespace RingLog

variable {α : Type} (cap : Nat)

def push (l : RingLog α) (x : α) : RingLog α :=
  { next := (l.next + 1) % cap
    cells := l.cells.set l.next x }

def pushAll (l : RingLog α) (xs : List α) : RingLog α := xs.foldl (push cap) l

def valid (l : RingLog α) : List α := l.cells.take l.next

/-- The index of the next write is a cell of the table. -/
structure InBounds (l : RingLog α) : Prop where
  next_lt : l.next < cap
  length_cells : l.cells.length = cap

/-- The end of `xs` from the last multiple of `cap` on. -/
def recent (xs : List α) : List α := xs.drop (xs.length - xs.length % cap)

variable {cap}

theorem InBounds.push {l : RingLog α} (h : l.InBounds cap) (x : α) : (l.push cap x).InBounds cap where
  next_lt := Nat.mod_lt _ (Nat.zero_lt_of_lt h.next_lt)
  length_cells := by simp [RingLog.push, h.length_cells]

theorem InBounds.pushAll {l : RingLog α} (h : l.InBounds cap) (xs : List α) :
    (l.pushAll cap xs).InBounds cap := by
  induction xs generalizing l with
  | nil => exact h
  | cons x xs ih => exact ih (h.push x)

theorem pushAll_append (l : RingLog α) (xs : List α) (x : α) :
    l.pushAll cap (xs ++ [x]) = (l.pushAll cap xs).push cap x := by
  simp [pushAll]

/-- One push either extends the valid cells or, when the index comes round, empties them. -/
theorem valid_push {l : RingLog α} (h : l.InBounds cap) (x : α) :
    (l.push cap x).valid = if l.next + 1 = cap then [] else l.valid ++ [x] := by
  have hlt : l.next < l.cells.length := by
    rw [h.length_cells]
    exact h.next_lt
  split
  · next hround =>
      simp [push, valid, hround]
  · next hstay =>
      have hsmall : l.next + 1 < cap := Nat.lt_of_le_of_ne h.next_lt hstay
      have hlast : (l.cells.set l.next x)[l.next]? = some x := by
        simp [hlt]
      have hbelow : (l.cells.set l.next x).take l.next = l.cells.take l.next :=
        List.take_set_of_le (Nat.le_refl _)
      simp [push, valid, Nat.mod_eq_of_lt hsmall, List.take_add_one, hlast, hbelow]

/-- What is done to the cell of the next entry is not seen before the index moves. -/
theorem valid_modify (l : RingLog α) (f : α → α) :
    (⟨l.next, l.cells.modify l.next f⟩ : RingLog α).valid = l.valid := by
  show (l.cells.modify l.next f).take l.next = l.cells.take l.next
  rw [List.take_modify]
  exact List.modify_eq_self (List.length_take_le _ _)

/-- After any number of pushes the index counts them modulo the capacity, and the valid cells are
the entries pushed since it last came round. -/
theorem pushAll_spec {l : RingLog α} (h : l.InBounds cap) (hzero : l.next = 0) (xs : List α) :
    (l.pushAll cap xs).next = xs.length % cap ∧ (l.pushAll cap xs).valid = recent cap xs := by
  -- from the end, since it is the last push that may make the index come round
  induction xs using List.reverseRecOn with
  | nil => simp [pushAll, valid, recent, hzero]
  | append_singleton xs x ih =>
      rcases ih with ⟨hnext, hvalid⟩
      have hcap : 0 < cap := Nat.zero_lt_of_lt h.next_lt
      have hin : (l.pushAll cap xs).InBounds cap := h.pushAll xs
      have hmod : (xs.length % cap + 1) % cap = (xs.length + 1) % cap := by simp
      refine ⟨?_, ?_⟩
      · simp [pushAll_append, push, hnext]
      · rw [pushAll_append, valid_push hin, hnext, hvalid]
        split
        · next hround =>
            have hrem : (xs.length + 1) % cap = 0 := by simp [← hmod, hround]
            simp [recent, hrem]
        · next hstay =>
            -- the start of the recent entries does not move
            have hsmall : xs.length % cap + 1 < cap :=
              Nat.lt_of_le_of_ne (Nat.mod_lt _ hcap) hstay
            have hrem : (xs.length + 1) % cap = xs.length % cap + 1 := by
              rw [← hmod, Nat.mod_eq_of_lt hsmall]
            have hle : xs.length % cap ≤ xs.length := Nat.mod_le _ _
            have hstart : (xs ++ [x]).length - (xs ++ [x]).length % cap =
                xs.length - xs.length % cap := by
              simp [hrem]
            have hwithin : xs.length - xs.length % cap ≤ xs.length := Nat.sub_le _ _
            rw [recent, recent, hstart, List.drop_append_of_le_length hwithin]

theorem valid_pushAll {l : RingLog α} (h : l.InBounds cap) (hzero : l.next = 0) (xs : List α) :
    (l.pushAll cap xs).valid = recent cap xs :=
  (pushAll_spec h hzero xs).2

theorem recent_of_lt {xs : List α} (h : xs.length < cap) : recent cap xs = xs := by
  simp [recent, Nat.mod_eq_of_lt h]

/-- Every entry is recent exactly when each one from before the last round was pushed again. -/
theorem forall_mem_recent_iff (xs : List α) :
    (∀ x ∈ xs, x ∈ recent cap xs) ↔
      ∀ x ∈ xs.take (xs.length - xs.length % cap), x ∈ xs.drop (xs.length - xs.length % cap) := by
  constructor
  · intro h x hx
    exact h x (List.mem_of_mem_take hx)
  · intro h x hx
    rw [← List.take_append_drop (xs.length - xs.length % cap) xs] at hx
    rcases List.mem_append.1 hx with hold | hnew
    · exact h x hold
    · exact hnew

end RingLog

end Lib
end CkptRestart
