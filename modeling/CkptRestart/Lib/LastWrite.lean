import Mathlib.Data.List.Induction
import Mathlib.Data.Set.Function
import Mathlib.Logic.Function.Basic

/-!
# LastWrite — writers that share a store

Writers put values into a store under keys of their own, one after the other, each write replacing
what is under its key.  A writer finds its last value again if no other writer has the same key
(`storeAll_eq_lastOf`); two writers with one key lose a value (`not_storeAll_eq_lastOf`).

`Latest` is about a single cell, which some rounds of a counting loop write to.
-/

namespace CkptRestart
namespace Lib

variable {ι κ ν : Type} [DecidableEq ι] [DecidableEq κ]

/-- The store after the writes `ws`, where the writer `i` writes under `key i`. -/
def storeAll (key : ι → κ) (ws : List (ι × ν)) (s : κ → Option ν) : κ → Option ν :=
  ws.foldl (fun s w => Function.update s (key w.1) (some w.2)) s

/-- What the writer `i` has written last: the store if every writer had a place of its own. -/
def lastOf (i : ι) (ws : List (ι × ν)) : Option ν := storeAll id ws (fun _ => none) i

section

omit [DecidableEq ι]

theorem storeAll_append_singleton (key : ι → κ) (ws : List (ι × ν)) (w : ι × ν) (s : κ → Option ν) :
    storeAll key (ws ++ [w]) s = Function.update (storeAll key ws s) (key w.1) (some w.2) := by
  simp [storeAll]

end

theorem lastOf_append_singleton (i : ι) (ws : List (ι × ν)) (w : ι × ν) :
    lastOf i (ws ++ [w]) = if w.1 = i then some w.2 else lastOf i ws := by
  rw [lastOf, storeAll_append_singleton]
  by_cases hw : w.1 = i
  · subst hw
    simp
  · simp [hw, Ne.symm hw, lastOf]

variable {key : ι → κ}

/-- Writers with different keys find what they wrote last. -/
theorem storeAll_eq_lastOf {S : Set ι} (hkey : S.InjOn key) {ws : List (ι × ν)}
    (hws : ∀ w ∈ ws, w.1 ∈ S) (s : κ → Option ν) {i : ι} (hi : i ∈ ws.map Prod.fst) :
    storeAll key ws s (key i) = lastOf i ws := by
  induction ws using List.reverseRecOn with
  | nil => simp at hi
  | append_singleton ws w ih =>
      rw [storeAll_append_singleton, lastOf_append_singleton]
      by_cases hw : w.1 = i
      · subst hw
        simp
      · have hbefore : i ∈ ws.map Prod.fst := by
          simpa [Ne.symm hw] using hi
        have hiS : i ∈ S := by
          rcases List.mem_map.1 hbefore with ⟨w', hw', rfl⟩
          exact hws w' (List.mem_append_left _ hw')
        -- the last write was somewhere else
        have hne : key i ≠ key w.1 := fun heq =>
          hw (hkey (hws w (by simp)) hiS heq.symm)
        rw [Function.update_of_ne hne, if_neg hw]
        exact ih (fun w' hw' => hws w' (List.mem_append_left _ hw')) hbefore

/-- Of two writers with one key that write different values, the first does not find its own. -/
theorem not_storeAll_eq_lastOf {i j : ι} (hij : i ≠ j) (hkey : key i = key j) {v v' : ν}
    (hv : v ≠ v') (ws : List (ι × ν)) (s : κ → Option ν) :
    storeAll key (ws ++ [(i, v)] ++ [(j, v')]) s (key i) ≠
      lastOf i (ws ++ [(i, v)] ++ [(j, v')]) := by
  rw [storeAll_append_singleton, lastOf_append_singleton, lastOf_append_singleton, if_neg hij.symm,
    if_pos rfl, hkey, Function.update_self]
  exact fun heq => hv (Option.some.inj heq).symm

/-! ## One cell -/

section Latest

variable {α : Type} {P : Nat → Prop} {v : Nat → α} {n : Nat} {old cur : α}

/-- The cell holds the value of the last round below `n` of a kind, or what it held before. -/
def Latest (P : Nat → Prop) (v : Nat → α) (n : Nat) (old cur : α) : Prop :=
  (∃ j < n, P j ∧ (∀ k, j < k → k < n → ¬ P k) ∧ cur = v j) ∨ (∀ j < n, ¬ P j) ∧ cur = old

theorem latest_zero (P : Nat → Prop) (v : Nat → α) (old : α) : Latest P v 0 old old :=
  .inr ⟨fun _ hj => absurd hj (Nat.not_lt_zero _), rfl⟩

/-- A round of the kind writes its value. -/
theorem latest_take (v : Nat → α) (old : α) (hn : P n) : Latest P v (n + 1) old (v n) :=
  .inl ⟨n, Nat.lt_succ_self n, hn, fun _ hlt hk => absurd hk (by omega), rfl⟩

/-- Any other one leaves the cell. -/
theorem Latest.skip (h : Latest P v n old cur) (hn : ¬ P n) : Latest P v (n + 1) old cur := by
  have hnext : ∀ k, k < n + 1 → k ≠ n → k < n := fun k hk hne => by omega
  rcases h with ⟨j, hj, hPj, hlast, rfl⟩ | ⟨hnone, rfl⟩
  · refine .inl ⟨j, Nat.lt_succ_of_lt hj, hPj, fun k hlt hk hPk => ?_, rfl⟩
    rcases eq_or_ne k n with rfl | hne
    · exact hn hPk
    · exact hlast k hlt (hnext k hk hne) hPk
  · refine .inr ⟨fun k hk hPk => ?_, rfl⟩
    rcases eq_or_ne k n with rfl | hne
    · exact hn hPk
    · exact hnone k (hnext k hk hne) hPk

theorem Latest.of_exists (h : Latest P v n old cur) (hex : ∃ j < n, P j) :
    ∃ j < n, P j ∧ cur = v j := by
  rcases h with ⟨j, hj, hPj, _, hcur⟩ | ⟨hnone, _⟩
  · exact ⟨j, hj, hPj, hcur⟩
  · rcases hex with ⟨j, hj, hPj⟩
    exact absurd hPj (hnone j hj)

theorem Latest.of_none (h : Latest P v n old cur) (hnone : ∀ j < n, ¬ P j) : cur = old := by
  rcases h with ⟨j, hj, hPj, _⟩ | ⟨_, hcur⟩
  · exact absurd hPj (hnone j hj)
  · exact hcur

end Latest

end Lib
end CkptRestart
