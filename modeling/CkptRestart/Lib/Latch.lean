import Mathlib.Data.List.Induction
import Mathlib.Data.List.Pairwise

/-!
# Latch — cells that keep the first value they are offered

A cell starts out with a value that means "not set"; an offer is taken while it is not set and
ignored afterwards, as with a variable that is filled at its first use.

`held_eq` says which value a cell keeps, and `settled_append_singleton` when a cell has at each offer
held the value it was offered: exactly when all values offered agree.
-/

namespace CkptRestart
namespace Lib

variable {α : Type} [DecidableEq α] (unset : α)

/-- The cell after it was offered `v`. -/
def latch (cell v : α) : α := if cell = unset then v else cell

/-- A new cell after it was offered each of `vs`. -/
def held (vs : List α) : α := vs.foldl (latch unset) unset

theorem held_append_singleton (vs : List α) (v : α) :
    held unset (vs ++ [v]) = latch unset (held unset vs) v := by
  simp [held]

/-- Once a value is offered, every later offer is the same. -/
def Settled (vs : List α) : Prop := vs.Pairwise fun u v => u ≠ unset → v = u

variable {unset}

theorem held_mem {vs : List α} (h : held unset vs ≠ unset) : held unset vs ∈ vs := by
  induction vs using List.reverseRecOn with
  | nil => exact absurd rfl h
  | append_singleton vs v ih =>
      rw [held_append_singleton] at h ⊢
      by_cases hcell : held unset vs = unset
      · simp [latch, hcell]
      · rw [latch, if_neg hcell]
        exact List.mem_append_left _ (ih hcell)

/-- A settled cell holds whatever it was offered. -/
theorem Settled.held_eq {vs : List α} (h : Settled unset vs) {u : α} (hu : u ∈ vs)
    (hne : u ≠ unset) : held unset vs = u := by
  induction vs using List.reverseRecOn with
  | nil => cases hu
  | append_singleton vs v ih =>
      rcases List.pairwise_append.1 h with ⟨hvs, _, hlast⟩
      rw [held_append_singleton]
      rcases List.mem_append.1 hu with hbefore | hnow
      · -- it was set before the last offer
        have hheld := ih hvs hbefore
        rw [hheld, latch, if_neg hne]
      · obtain rfl := List.mem_singleton.1 hnow
        by_cases hcell : held unset vs = unset
        · simp [latch, hcell]
        · rw [latch, if_neg hcell]
          exact (hlast _ (held_mem hcell) u (by simp) hcell).symm

/-- One more offer keeps a cell settled exactly when the cell then holds it. -/
theorem settled_append_singleton {vs : List α} {v : α} :
    Settled unset (vs ++ [v]) ↔ Settled unset vs ∧ latch unset (held unset vs) v = v := by
  constructor
  · intro h
    rcases List.pairwise_append.1 h with ⟨hvs, _, hlast⟩
    refine ⟨hvs, ?_⟩
    by_cases hcell : held unset vs = unset
    · simp [latch, hcell]
    · rw [latch, if_neg hcell]
      exact (hlast _ (held_mem hcell) v (by simp) hcell).symm
  · rintro ⟨hvs, hcell⟩
    refine List.pairwise_append.2 ⟨hvs, by simp, ?_⟩
    intro u hu w hw hne
    obtain rfl := List.mem_singleton.1 hw
    rw [hvs.held_eq hu hne, latch, if_neg hne] at hcell
    exact hcell.symm

end Lib
end CkptRestart
