import Mathlib.Data.List.Induction
import Mathlib.Data.Set.Lattice
import Mathlib.Logic.Function.Basic
import Mathlib.Order.CompletePartialOrder

/-!
# SharedMemory — programs that run side by side on one memory

A program asks for one access after the other.  An access that the protection of its address does not
permit ends the program.

`System.run_isolated` compares several programs on one memory with each of them alone on a memory of
its own: as long as each keeps to a set of addresses, and these sets are disjoint, no order of their
steps makes a difference to any of them.
-/

namespace CkptRestart
namespace Lib
namespace SharedMemory

/-! ## Memories -/

/-- A memory as programs see it: the protection of what is mapped, and the contents. -/
structure View (α π β : Type) where
  prot : α → Option π
  bytes : α → β

/-- The two look alike in `A`. -/
structure View.Agree {α π β : Type} (A : Set α) (v w : View α π β) : Prop where
  prot : ∀ x ∈ A, v.prot x = w.prot x
  bytes : ∀ x ∈ A, v.bytes x = w.bytes x

theorem View.Agree.symm {α π β : Type} {A : Set α} {v w : View α π β} (h : v.Agree A w) :
    w.Agree A v :=
  ⟨fun x hx => (h.prot x hx).symm, fun x hx => (h.bytes x hx).symm⟩

theorem View.Agree.trans {α π β : Type} {A : Set α} {u v w : View α π β} (h : u.Agree A v)
    (h' : v.Agree A w) : u.Agree A w :=
  ⟨fun x hx => (h.prot x hx).trans (h'.prot x hx), fun x hx => (h.bytes x hx).trans (h'.bytes x hx)⟩

/-! ## One program -/

/-- What a program does next, and how it goes on; `κ` are the kinds of access. -/
inductive Action (κ α β ο σ : Type)
  | load (kind : κ) (x : α) (next : β → σ)
  | store (kind : κ) (x : α) (b : β) (next : σ)
  | emit (o : ο) (next : σ)
  | compute (next : σ)
  | stop

/-- The same for a program whose registers are part of something larger. -/
def Action.map {κ α β ο σ τ : Type} (f : σ → τ) : Action κ α β ο σ → Action κ α β ο τ
  | .load kind x next => .load kind x fun b => f (next b)
  | .store kind x b next => .store kind x b (f next)
  | .emit o next => .emit o (f next)
  | .compute next => .compute (f next)
  | .stop => .stop

inductive Ending
  | running
  | stopped
  | faulted
  deriving DecidableEq, Repr

/-- A program that runs: its registers and what it has put out. -/
structure Runner (σ ο : Type) where
  state : σ
  ending : Ending
  output : List ο

/-- A program at its start. -/
def Runner.start {σ : Type} (ο : Type) (state : σ) : Runner σ ο := ⟨state, .running, []⟩

def Runner.map {σ τ ο : Type} (f : σ → τ) (r : Runner σ ο) : Runner τ ο :=
  ⟨f r.state, r.ending, r.output⟩

variable {κ α π β ο σ : Type} (permits : κ → π → Bool)

section One

variable (code : σ → Action κ α β ο σ)

/-- The address of the next access. -/
def Runner.touches (r : Runner σ ο) : Option α :=
  if r.ending = .running then
    match code r.state with
    | .load _ x _ => some x
    | .store _ x _ _ => some x
    | _ => none
  else none

theorem Runner.touches_map {τ : Type} {code' : τ → Action κ α β ο τ} {f : σ → τ}
    (hcode : ∀ s, code' (f s) = (code s).map f) (r : Runner σ ο) :
    (r.map f).touches code' = r.touches code := by
  unfold touches Runner.map
  simp only [hcode]
  cases code r.state <;> rfl

/-- With what it has put out before. -/
def Runner.after (before : List ο) (r : Runner σ ο) : Runner σ ο :=
  { r with output := before ++ r.output }

theorem Runner.touches_after (before : List ο) (r : Runner σ ο) :
    (r.after before).touches code = r.touches code := rfl

def View.allows (v : View α π β) (kind : κ) (x : α) : Bool := (v.prot x).any (permits kind)

variable [DecidableEq α]

def Runner.step (r : Runner σ ο) (v : View α π β) : Runner σ ο × View α π β :=
  if r.ending = .running then
    match code r.state with
    | .load kind x next =>
        if v.allows permits kind x then ({ r with state := next (v.bytes x) }, v)
        else ({ r with ending := .faulted }, v)
    | .store kind x b next =>
        if v.allows permits kind x then
          ({ r with state := next }, { v with bytes := Function.update v.bytes x b })
        else ({ r with ending := .faulted }, v)
    | .emit o next => ({ r with state := next, output := r.output ++ [o] }, v)
    | .compute next => ({ r with state := next }, v)
    | .stop => ({ r with ending := .stopped }, v)
  else (r, v)

/-- The program alone, for a number of steps. -/
def Runner.run : Nat → Runner σ ο → View α π β → Runner σ ο × View α π β
  | 0, r, v => (r, v)
  | n + 1, r, v =>
      let (r, v) := Runner.run n r v
      r.step permits code v

theorem Runner.run_succ (n : Nat) (r : Runner σ ο) (v : View α π β) :
    Runner.run permits code (n + 1) r v = Runner.step permits code (Runner.run permits code n r v).1
      (Runner.run permits code n r v).2 := rfl

/-- In the first `n` steps it touches no address outside `A`. -/
def Runner.Within (A : Set α) (n : Nat) (r : Runner σ ο) (v : View α π β) : Prop :=
  ∀ m < n, ∀ x, (Runner.run permits code m r v).1.touches code = some x → x ∈ A

theorem Runner.Within.mono {A : Set α} {n m : Nat} {r : Runner σ ο} {v : View α π β}
    (h : r.Within permits code A n v) (hle : m ≤ n) : r.Within permits code A m v :=
  fun k hk => h k (lt_of_lt_of_le hk hle)

/-- A step changes no protection, and no byte but at the address that it touches. -/
theorem Runner.step_frame (r : Runner σ ο) (v : View α π β) :
    (r.step permits code v).2.prot = v.prot ∧
      ∀ x, r.touches code ≠ some x → (r.step permits code v).2.bytes x = v.bytes x := by
  unfold step touches
  by_cases hrun : r.ending = .running
  · simp only [if_pos hrun]
    cases code r.state with
    | load kind x next => by_cases hok : v.allows permits kind x = true <;> simp [hok]
    | store kind x b next =>
        by_cases hok : v.allows permits kind x = true
        · refine ⟨by simp [hok], fun y hy => ?_⟩
          have hne : y ≠ x := fun heq => hy (congrArg some heq.symm)
          simp [hok, Function.update_of_ne hne]
        · simp [hok]
    | emit o next => simp
    | compute next => simp
    | stop => simp
  · simp [if_neg hrun]

/-- On memories that look alike where it looks, a program does the same. -/
theorem Runner.step_agree {A : Set α} {r : Runner σ ο} {v w : View α π β} (h : v.Agree A w)
    (htouch : ∀ x, r.touches code = some x → x ∈ A) :
    (r.step permits code v).1 = (r.step permits code w).1 ∧
      (r.step permits code v).2.Agree A (r.step permits code w).2 := by
  unfold step
  unfold touches at htouch
  by_cases hrun : r.ending = .running
  · simp only [if_pos hrun] at htouch ⊢
    cases haction : code r.state with
    | load kind x next =>
        have hx : x ∈ A := htouch x (by simp [haction])
        have hallow : v.allows permits kind x = w.allows permits kind x := by
          rw [View.allows, View.allows, h.prot x hx]
        simp only [hallow, h.bytes x hx]
        by_cases hok : w.allows permits kind x = true <;> simp [hok, h]
    | store kind x b next =>
        have hx : x ∈ A := htouch x (by simp [haction])
        have hallow : v.allows permits kind x = w.allows permits kind x := by
          rw [View.allows, View.allows, h.prot x hx]
        simp only [hallow]
        by_cases hok : w.allows permits kind x = true
        · -- the same byte is stored on both sides
          simp only [hok, if_true, true_and]
          refine ⟨h.prot, fun y hy => ?_⟩
          by_cases hyx : y = x
          · subst hyx
            simp
          · simp [Function.update_of_ne hyx, h.bytes y hy]
        · simp [hok, h]
    | emit o next => exact ⟨rfl, h⟩
    | compute next => exact ⟨rfl, h⟩
    | stop => exact ⟨rfl, h⟩
  · simp only [if_neg hrun, true_and]
    exact h

/-- The steps of two runs, one after the other. -/
theorem Runner.run_add (m n : Nat) (r : Runner σ ο) (v : View α π β) :
    Runner.run permits code (m + n) r v =
      Runner.run permits code n (Runner.run permits code m r v).1
        (Runner.run permits code m r v).2 := by
  induction n with
  | zero => rfl
  | succ n ih =>
      show Runner.step permits code (Runner.run permits code (m + n) r v).1
        (Runner.run permits code (m + n) r v).2 = _
      rw [ih]
      rfl

/-- No run changes a protection. -/
theorem Runner.run_prot (n : Nat) (r : Runner σ ο) (v : View α π β) :
    (Runner.run permits code n r v).2.prot = v.prot := by
  induction n with
  | zero => rfl
  | succ n ih => exact (Runner.step_frame permits code _ _).1.trans ih

/-- What a program does from some step on is in what it does from the start. -/
theorem Runner.Within.after {A : Set α} {m n : Nat} {r : Runner σ ο} {v : View α π β}
    (h : r.Within permits code A (m + n) v) :
    (Runner.run permits code m r v).1.Within permits code A n (Runner.run permits code m r v).2 := by
  intro k hk x hx
  rw [← Runner.run_add] at hx
  exact h (m + k) (Nat.add_lt_add_left hk m) x hx

/-- A run that keeps to addresses where two memories look alike is the same on both. -/
theorem Runner.run_agree {A : Set α} {n : Nat} {r : Runner σ ο} {v w : View α π β}
    (h : v.Agree A w) (hwithin : r.Within permits code A n v) :
    (Runner.run permits code n r v).1 = (Runner.run permits code n r w).1 ∧
      (Runner.run permits code n r v).2.Agree A (Runner.run permits code n r w).2 := by
  induction n with
  | zero => exact ⟨rfl, h⟩
  | succ n ih =>
      -- so far they agree; the last step touches only what looks alike
      obtain ⟨hrunner, hmemory⟩ := ih (hwithin.mono permits code (Nat.le_succ n))
      have hstep := Runner.step_agree permits code hmemory (hwithin n (Nat.lt_succ_self n))
      rw [Runner.run_succ, Runner.run_succ, ← hrunner]
      exact hstep

theorem Runner.Within.agree {A : Set α} {n : Nat} {r : Runner σ ο} {v w : View α π β}
    (h : v.Agree A w) (hwithin : r.Within permits code A n v) : r.Within permits code A n w := by
  intro m hm x hx
  rw [← (Runner.run_agree permits code h (hwithin.mono permits code hm.le)).1] at hx
  exact hwithin m hm x hx

theorem Runner.step_after (before : List ο) (r : Runner σ ο) (v : View α π β) :
    (r.after before).step permits code v =
      ((r.step permits code v).1.after before, (r.step permits code v).2) := by
  unfold step after
  by_cases hrun : r.ending = .running
  · simp only [if_pos hrun]
    cases code r.state with
    | load kind x next => by_cases hok : v.allows permits kind x = true <;> simp [hok]
    | store kind x b next => by_cases hok : v.allows permits kind x = true <;> simp [hok]
    | emit o next => simp
    | compute next => rfl
    | stop => rfl
  · simp only [if_neg hrun]

/-- What it has put out before makes no difference. -/
theorem Runner.run_after (before : List ο) (n : Nat) (r : Runner σ ο) (v : View α π β) :
    Runner.run permits code n (r.after before) v =
      ((Runner.run permits code n r v).1.after before, (Runner.run permits code n r v).2) := by
  induction n with
  | zero => rfl
  | succ n ih =>
      rw [Runner.run_succ, Runner.run_succ, ih]
      exact Runner.step_after permits code before _ _

theorem Runner.Within.of_after {A : Set α} {before : List ο} {n : Nat} {r : Runner σ ο}
    {v : View α π β} (h : (r.after before).Within permits code A n v) :
    r.Within permits code A n v := by
  intro m hm x hx
  refine h m hm x ?_
  rw [Runner.run_after, Runner.touches_after]
  exact hx

section Map

variable {τ : Type} {code' : τ → Action κ α β ο τ} {f : σ → τ}

/-- A program that is part of a larger one takes the same steps there. -/
theorem Runner.step_map (hcode : ∀ s, code' (f s) = (code s).map f) (r : Runner σ ο)
    (v : View α π β) :
    (r.map f).step permits code' v =
      ((r.step permits code v).1.map f, (r.step permits code v).2) := by
  unfold step Runner.map
  simp only [hcode]
  by_cases hrun : r.ending = .running
  · simp only [if_pos hrun]
    cases code r.state with
    | load kind x next => by_cases hok : v.allows permits kind x = true <;> simp [Action.map, hok]
    | store kind x b next =>
        by_cases hok : v.allows permits kind x = true <;> simp [Action.map, hok]
    | emit o next => rfl
    | compute next => rfl
    | stop => rfl
  · simp only [if_neg hrun]

theorem Runner.run_map (hcode : ∀ s, code' (f s) = (code s).map f) (n : Nat) (r : Runner σ ο)
    (v : View α π β) :
    Runner.run permits code' n (r.map f) v =
      ((Runner.run permits code n r v).1.map f, (Runner.run permits code n r v).2) := by
  induction n with
  | zero => rfl
  | succ n ih =>
      show Runner.step permits code' (Runner.run permits code' n (r.map f) v).1 _ = _
      rw [ih, Runner.step_map permits code hcode]
      rfl

end Map

end One

/-! ## Several programs -/

/-- Programs with one memory. -/
structure System (ι σ ο α π β : Type) where
  runners : ι → Runner σ ο
  memory : View α π β

section Several

variable {ι : Type} [DecidableEq ι] [DecidableEq α] (code : ι → σ → Action κ α β ο σ)

def System.step (s : System ι σ ο α π β) (i : ι) : System ι σ ο α π β where
  runners := Function.update s.runners i ((s.runners i).step permits (code i) s.memory).1
  memory := ((s.runners i).step permits (code i) s.memory).2

theorem System.runners_step_of_ne (s : System ι σ ο α π β) {i j : ι} (hne : j ≠ i) :
    (s.step permits code i).runners j = s.runners j := Function.update_of_ne hne _ _

theorem System.runners_step_self (s : System ι σ ο α π β) (i : ι) :
    (s.step permits code i).runners i = ((s.runners i).step permits (code i) s.memory).1 :=
  Function.update_self _ _ _

/-- The steps in the order in which the programs take them. -/
def System.run (order : List ι) (s : System ι σ ο α π β) : System ι σ ο α π β :=
  order.foldl (System.step permits code) s

theorem System.run_append_singleton (order : List ι) (i : ι) (s : System ι σ ο α π β) :
    s.run permits code (order ++ [i]) = (s.run permits code order).step permits code i := by
  simp [System.run]

/-- The program `i` stands where it would stand alone, and its part of the memory looks the same. -/
structure System.Alone (A : ι → Set α) (own : ι → View α π β) (s : System ι σ ο α π β)
    (order : List ι) (i : ι) : Prop where
  runner : (s.run permits code order).runners i =
    ((s.runners i).run permits (code i) (order.count i) (own i)).1
  memory : ((s.runners i).run permits (code i) (order.count i) (own i)).2.Agree (A i)
    (s.run permits code order).memory

variable {A : ι → Set α} {own : ι → View α π β} {s : System ι σ ο α π β} {order : List ι} {i : ι}

/-- The step of another program is not noticed. -/
theorem System.Alone.other {j : ι} (hne : j ≠ i) (hdis : Disjoint (A i) (A j))
    (htouch : ∀ x, ((s.run permits code order).runners i).touches (code i) = some x → x ∈ A i)
    (h : s.Alone permits code A own order j) : s.Alone permits code A own (order ++ [i]) j := by
  have hframe := Runner.step_frame permits (code i) ((s.run permits code order).runners i)
    (s.run permits code order).memory
  have hcount : (order ++ [i]).count j = order.count j := by simp [Ne.symm hne]
  constructor
  · rw [hcount, System.run_append_singleton, System.runners_step_of_ne _ _ _ hne]
    exact h.runner
  · rw [hcount, System.run_append_singleton]
    constructor
    · intro x hx
      rw [System.step, hframe.1]
      exact h.memory.prot x hx
    · -- the address touched is not one of its own
      intro x hx
      rw [System.step, hframe.2 x fun hxi => Set.disjoint_left.1 hdis (htouch x hxi) hx]
      exact h.memory.bytes x hx

/-- Its own step is the step that it would take alone. -/
theorem System.Alone.self
    (htouch : ∀ x, ((s.run permits code order).runners i).touches (code i) = some x → x ∈ A i)
    (h : s.Alone permits code A own order i) : s.Alone permits code A own (order ++ [i]) i := by
  have hcount : (order ++ [i]).count i = order.count i + 1 := by simp
  rw [h.runner] at htouch
  have hstep := Runner.step_agree permits (code i) h.memory htouch
  constructor
  · rw [hcount, System.run_append_singleton, System.runners_step_self, h.runner]
    exact hstep.1.symm
  · rw [hcount, System.run_append_singleton, System.step, Runner.run, h.runner]
    exact hstep.2

/-- Programs that keep to disjoint sets of addresses run as if each of them were alone. -/
theorem System.run_isolated (hdis : ∀ i j, i ≠ j → Disjoint (A i) (A j))
    (hagree : ∀ i, (own i).Agree (A i) s.memory)
    (hwithin : ∀ i, (s.runners i).Within permits (code i) (A i) (order.count i) (own i)) :
    ∀ i, s.Alone permits code A own order i := by
  -- on the steps, from the last one back: before it every program is where it would be alone
  induction order using List.reverseRecOn with
  | nil => exact fun i => ⟨rfl, hagree i⟩
  | append_singleton order i ih =>
      have hbefore : ∀ j, s.Alone permits code A own order j :=
        ih fun j => (hwithin j).mono permits (code j) (by simp [List.count_append])
      -- alone, the program keeps to its addresses, so it does here
      have htouch : ∀ x, ((s.run permits code order).runners i).touches (code i) = some x →
          x ∈ A i := by
        rw [(hbefore i).runner]
        exact hwithin i (order.count i) (by simp)
      intro j
      by_cases hne : j = i
      · subst hne
        exact (hbefore j).self permits code htouch
      · exact (hbefore j).other permits code hne (hdis i j (Ne.symm hne)) htouch

end Several

end SharedMemory
end Lib
end CkptRestart
