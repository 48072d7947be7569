import CkptRestart.Lib.Exec
import Mathlib.Data.List.Basic

/-!
# Scanner — programs that take characters off the front of a text

`Scans e k view x t L`: started on the text `t`, the program `x` ends with a result exactly when some
front of `t` is derived by the grammar `L`, the result has the value that `L` gives to that front, and
the rest of the text is left.  While it waits for more characters, the text has at most `k` end marks `e`
at its end; so a text that ends with more of them is decided.

The rules follow the way such programs are put together: a result, a failure, one scanner after the
other, and a choice.
-/

namespace CkptRestart
namespace Lib

variable {γ ρ ρ' α β : Type} {e : γ} {k j : Nat}

/-! ## Texts that may go on -/

/-- At most `k` end marks stand at the end of the text. -/
def Unended (e : γ) (k : Nat) (t : List γ) : Prop :=
  ∀ s n, t = s ++ List.replicate n e → n ≤ k

theorem unended_nil : Unended e k [] := by
  intro s n h
  have hlen := congrArg List.length h
  simp only [List.length_nil, List.length_append, List.length_replicate] at hlen
  omega

/-- A front that does not end with the end mark makes no difference. -/
theorem Unended.append {u t : List γ} (h : Unended e k t) (hu : u.getLast? ≠ some e) :
    Unended e k (u ++ t) := by
  intro s n hsplit
  rcases List.append_eq_append_iff.1 hsplit with ⟨as, _, ht⟩ | ⟨bs, hs, hmarks⟩
  · exact h as n ht
  · -- what the front has of the end marks is nothing
    rcases List.eq_nil_or_concat bs with rfl | ⟨bs', c, rfl⟩
    · exact h [] n (by simpa using hmarks.symm)
    · have hc : c ∈ List.replicate n e := by
        rw [hmarks]
        simp
      refine absurd ?_ hu
      rw [hs, List.eq_of_mem_replicate hc]
      simp

/-- A front adds at most its own length. -/
theorem Unended.append_add {u t : List γ} (h : Unended e k t) : Unended e (u.length + k) (u ++ t) := by
  intro s n hsplit
  rcases List.append_eq_append_iff.1 hsplit with ⟨as, _, ht⟩ | ⟨bs, hs, hmarks⟩
  · exact Nat.le_add_left_of_le (h as n ht)
  · have ht : t = [] ++ List.replicate t.length e := by
      refine List.eq_replicate_of_mem fun c hc => ?_
      have hmem : c ∈ List.replicate n e := by
        rw [hmarks]
        exact List.mem_append_right bs hc
      exact List.eq_of_mem_replicate hmem
    have hmarked := h [] t.length ht
    have hlen := congrArg List.length hmarks
    have hfront := congrArg List.length hs
    simp only [List.length_replicate, List.length_append] at hlen hfront
    omega

/-- A front that does not end with the end mark takes none of the end marks. -/
theorem front_of_getLast? {s u t : List γ} {n : Nat} (h : s ++ List.replicate n e = u ++ t)
    (hu : u.getLast? ≠ some e) : ∃ s', s = u ++ s' ∧ t = s' ++ List.replicate n e := by
  rcases List.append_eq_append_iff.1 h with ⟨as, hfront, hmarks⟩ | ⟨bs, hs, ht⟩
  · rcases List.eq_nil_or_concat as with rfl | ⟨as', c, rfl⟩
    · exact ⟨[], by simpa using hfront.symm, by simpa using hmarks.symm⟩
    · have hc : c ∈ List.replicate n e := by
        rw [hmarks]
        simp
      refine absurd ?_ hu
      rw [hfront, List.eq_of_mem_replicate hc]
      simp
  · exact ⟨bs, hs, ht⟩

/-! ## Grammars -/

/-- A grammar gives values to texts: `L u a` says that it derives `u`, with the value `a`. -/
abbrev Grammar (γ α : Type) := List γ → α → Prop

namespace Grammar

/-- Nothing at all, with one value. -/
def Done (a : α) : Grammar γ α := fun u b => u = [] ∧ b = a

def Fail : Grammar γ α := fun _ _ => False

/-- A text of the first grammar, then one of the second, which may depend on the value of the first. -/
def Seq (L : Grammar γ α) (M : α → Grammar γ β) : Grammar γ β :=
  fun w b => ∃ u v a, w = u ++ v ∧ L u a ∧ M a v b

def Choice (p : Prop) (L L' : Grammar γ α) : Grammar γ α := fun u a => (p ∧ L u a) ∨ (¬ p ∧ L' u a)

def Guard (p : Prop) (L : Grammar γ α) : Grammar γ α := fun u a => p ∧ L u a

end Grammar

/-! ## Scanners -/

/-- The program `x` on the text `t` takes a front of it that is in `L`; `view` shows the value of a
result and what is left of the text. -/
structure Scans (e : γ) (k : Nat) (view : ρ → α × List γ) (x : Exec ρ) (t : List γ)
    (L : Grammar γ α) : Prop where
  sound : ∀ {r}, x = .ok r → ∃ u, t = u ++ (view r).2 ∧ L u (view r).1
  complete : ∀ {u rest a}, t = u ++ rest → L u a → ∃ r, x = .ok r ∧ view r = (a, rest)
  waits : x = .running → Unended e k t

namespace Scans

variable {view : ρ → α × List γ} {view' : ρ' → β × List γ} {x : Exec ρ} {f : ρ → Exec ρ'}
  {t : List γ} {L L' : Grammar γ α} {M : α → Grammar γ β}

theorem congr (h : Scans e k view x t L) (hiff : ∀ u a, L u a ↔ L' u a) :
    Scans e k view x t L' where
  sound := by
    intro r hr
    rcases h.sound hr with ⟨u, ht, hu⟩
    exact ⟨u, ht, (hiff _ _).1 hu⟩
  complete := fun ht hu => h.complete ht ((hiff _ _).2 hu)
  waits := h.waits

/-- A result takes nothing. -/
theorem ok (view : ρ → α × List γ) (r : ρ) :
    Scans e k view (.ok r) (view r).2 (.Done (view r).1) where
  sound := by
    rintro r' hr
    cases hr
    exact ⟨[], rfl, rfl, rfl⟩
  complete := by
    rintro u rest a ht ⟨rfl, rfl⟩
    exact ⟨r, rfl, Prod.ext rfl ht⟩
  waits := nofun

/-- A program that never ends with a result takes no text. -/
theorem fails (hno : ∀ r, x ≠ .ok r) (hwait : x = .running → Unended e k t) :
    Scans e k view x t .Fail where
  sound := fun hr => absurd hr (hno _)
  complete := fun _ hu => hu.elim
  waits := hwait

/-- One scanner after the other.  What the first one takes may end with the end mark only if the
second then needs no more, or counts it. -/
theorem bind (hx : Scans e k view x t L)
    (hf : ∀ r, x = .ok r → Scans e j view' (f r) (view r).2 (M (view r).1))
    (hwait : ∀ {r u}, x = .ok r → L u (view r).1 → f r = .running → Unended e j (view r).2 →
      Unended e k (u ++ (view r).2)) :
    Scans e k view' (x >>= f) t (.Seq L M) where
  sound := by
    intro r' hr'
    rcases Exec.bind_eq_ok_iff.1 hr' with ⟨r, hr, hfr⟩
    rcases hx.sound hr with ⟨u, ht, hu⟩
    rcases (hf r hr).sound hfr with ⟨v, hrest, hv⟩
    exact ⟨u ++ v, by rw [ht, hrest, List.append_assoc], u, v, _, rfl, hu, hv⟩
  complete := by
    rintro w rest b ht ⟨u, v, a, rfl, hu, hv⟩
    rw [List.append_assoc] at ht
    rcases hx.complete ht hu with ⟨r, hr, hview⟩
    have hsecond := hf r hr
    rw [hview] at hsecond
    rcases hsecond.complete rfl hv with ⟨r', hr', hview'⟩
    exact ⟨r', by rw [hr, Exec.ok_bind, hr'], hview'⟩
  waits := by
    intro hrun
    cases hx' : x with
    | running => exact hx.waits hx'
    | exited =>
        rw [hx'] at hrun
        cases hrun
    | ok r =>
        rw [hx', Exec.ok_bind] at hrun
        rcases hx.sound hx' with ⟨u, ht, hu⟩
        rw [ht]
        exact hwait hx' hu hrun ((hf r hx').waits hrun)

/-- What the first one takes never ends with the end mark. -/
theorem bind_of_ne (hx : Scans e k view x t L)
    (hf : ∀ r, x = .ok r → Scans e k view' (f r) (view r).2 (M (view r).1))
    (hne : ∀ {u a}, L u a → u.getLast? ≠ some e) :
    Scans e k view' (x >>= f) t (.Seq L M) :=
  hx.bind hf fun _ hu _ hrest => hrest.append (hne hu)

/-- What the first one takes may end with the end mark where the second then does not wait. -/
theorem bind_of_last (hx : Scans e k view x t L)
    (hf : ∀ r, x = .ok r → Scans e k view' (f r) (view r).2 (M (view r).1))
    (hlast : ∀ {r u}, L u (view r).1 → u.getLast? = some e → f r ≠ .running) :
    Scans e k view' (x >>= f) t (.Seq L M) :=
  hx.bind hf fun _ hu hrun hrest => hrest.append fun hmark => hlast hu hmark hrun

theorem ite {p : Prop} [Decidable p] {y : Exec ρ} (hx : p → Scans e k view x t L)
    (hy : ¬ p → Scans e k view y t L') :
    Scans e k view (if p then x else y) t (.Choice p L L') := by
  by_cases hp : p
  · rw [if_pos hp]
    exact (hx hp).congr fun u a => by simp [Grammar.Choice, hp]
  · rw [if_neg hp]
    exact (hy hp).congr fun u a => by simp [Grammar.Choice, hp]

/-- A check, and a failure if it does not hold. -/
theorem guard {p : Prop} [Decidable p] {y : Exec ρ} (hx : Scans e k view x t .Fail)
    (hy : ¬ p → Scans e k view y t L) :
    Scans e k view (if p then x else y) t (.Guard (¬ p) L) :=
  (ite (fun _ => hx) hy).congr fun u a => by simp [Grammar.Choice, Grammar.Fail, Grammar.Guard]

end Scans

end Lib
end CkptRestart
