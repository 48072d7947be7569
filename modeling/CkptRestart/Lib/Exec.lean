/-!
# Exec — programs that may still run or leave, and runs of a system

* `Exec α`: the result of a program that can end the whole process, or can still be running when
  the outside world has answered all it is going to answer.
* `Exec.steps`: a program run on one event after the other.
* `Run`: finite runs of a labelled step relation, and the rule that carries an invariant along them.
-/

namespace CkptRestart
namespace Lib

/-! ## Programs -/

inductive Exec (α : Type) where
  | running
  | exited
  | ok (a : α)
  deriving DecidableEq, Repr

namespace Exec

variable {α β : Type}

protected def bind (x : Exec α) (f : α → Exec β) : Exec β :=
  match x with
  | .running => .running
  | .exited => .exited
  | .ok a => f a

instance : Monad Exec where
  pure := .ok
  bind := Exec.bind

/-- A loop without a result is still running. -/
def ofOption : Option α → Exec α
  | none => .running
  | some a => .ok a

@[simp] theorem pure_eq (a : α) : (pure a : Exec α) = .ok a := rfl
@[simp] theorem ok_bind (a : α) (f : α → Exec β) : (Exec.ok a >>= f) = f a := rfl
@[simp] theorem running_bind (f : α → Exec β) : (Exec.running >>= f) = .running := rfl
@[simp] theorem exited_bind (f : α → Exec β) : (Exec.exited >>= f) = .exited := rfl
@[simp] theorem ofOption_some (a : α) : ofOption (some a) = .ok a := rfl
@[simp] theorem ofOption_none : ofOption (none : Option α) = .running := rfl

theorem bind_eq_ok_iff {x : Exec α} {f : α → Exec β} {b : β} :
    (x >>= f) = .ok b ↔ ∃ a, x = .ok a ∧ f a = .ok b := by
  cases x with
  | running => simp
  | exited => simp
  | ok a => simp

theorem ofOption_eq_ok_iff {x : Option α} {a : α} : ofOption x = .ok a ↔ x = some a := by
  cases x with
  | none => simp
  | some b => simp

/-- The program ends with a result that has the property, or leaves because of `R`. -/
def OkUnless (R : Prop) (Q : α → Prop) (x : Exec α) : Prop :=
  (x = .exited ∧ R) ∨ ∃ a, x = .ok a ∧ Q a

theorem OkUnless.of_ok {R : Prop} {Q : α → Prop} {a : α} (h : Q a) : OkUnless R Q (.ok a) :=
  .inr ⟨a, rfl, h⟩

theorem OkUnless.bind {R : Prop} {P : α → Prop} {Q : β → Prop} {x : Exec α} {f : α → Exec β}
    (hx : OkUnless R P x) (hf : ∀ a, P a → OkUnless R Q (f a)) : OkUnless R Q (x >>= f) := by
  rcases hx with ⟨rfl, hreason⟩ | ⟨a, rfl, ha⟩
  · exact .inl ⟨rfl, hreason⟩
  · exact hf a ha

theorem OkUnless.of_eq_ok {R : Prop} {Q : α → Prop} {x : Exec α} {a : α} (h : OkUnless R Q x)
    (hx : x = .ok a) : Q a := by
  rcases h with ⟨hexit, _⟩ | ⟨b, hb, hQ⟩
  · cases hexit.symm.trans hx
  · cases hb.symm.trans hx
    exact hQ

theorem OkUnless.ok {R : Prop} {Q : α → Prop} {x : Exec α} (h : OkUnless R Q x) (hR : ¬ R) :
    ∃ a, x = .ok a ∧ Q a := by
  rcases h with ⟨_, hreason⟩ | hok
  · exact absurd hreason hR
  · exact hok

section Steps

variable {σ ε : Type}

/-- The steps of a list of events, until one of them ends the process or is still running. -/
def steps (step : σ → ε → Exec σ) : List ε → σ → Exec σ
  | [], s => .ok s
  | e :: es, s => step s e >>= steps step es

theorem steps_append_singleton (step : σ → ε → Exec σ) (es : List ε) (e : ε) (s : σ) :
    steps step (es ++ [e]) s = (steps step es s >>= fun t => step t e) := by
  induction es generalizing s with
  | nil => cases h : step s e <;> simp [steps, h]
  | cons d es ih => cases h : step s d <;> simp [steps, h, ih]

/-- What every round of a counting loop carries on holds at its end. -/
theorem steps_range {step : σ → Nat → Exec σ} {Inv : Nat → σ → Prop} {n : Nat}
    (hstep : ∀ i < n, ∀ s, Inv i s → ∃ t, step s i = .ok t ∧ Inv (i + 1) t) {s : σ}
    (hinit : Inv 0 s) : ∃ t, steps step (List.range n) s = .ok t ∧ Inv n t := by
  induction n with
  | zero => exact ⟨s, rfl, hinit⟩
  | succ n ih =>
      rcases ih fun i hi => hstep i (Nat.lt_succ_of_lt hi) with ⟨t, hrun, hinv⟩
      rcases hstep n (Nat.lt_succ_self n) t hinv with ⟨u, hlast, hinv'⟩
      exact ⟨u, by rw [List.range_succ, steps_append_singleton, hrun, ok_bind, hlast], hinv'⟩

/-- What every round that ends keeps holds when the loop has ended. -/
theorem steps_range_of_ok {step : σ → Nat → Exec σ} {Inv : Nat → σ → Prop} {n : Nat}
    (hstep : ∀ i < n, ∀ s t, Inv i s → step s i = .ok t → Inv (i + 1) t) {s t : σ}
    (hinit : Inv 0 s) (hrun : steps step (List.range n) s = .ok t) : Inv n t := by
  induction n generalizing t with
  | zero =>
      cases hrun
      exact hinit
  | succ n ih =>
      rw [List.range_succ, steps_append_singleton] at hrun
      rcases bind_eq_ok_iff.1 hrun with ⟨u, hbefore, hlast⟩
      have hinv := ih (fun i hi => hstep i (Nat.lt_succ_of_lt hi)) hbefore
      exact hstep n (Nat.lt_succ_self n) u t hinv hlast

/-- What holds at every event of a list and one more holds at every event of the list and at the new
one. -/
theorem forall_split_append_singleton {P : List ε → ε → Prop} {es : List ε} {e : ε} :
    (∀ pre d post, es ++ [e] = pre ++ d :: post → P pre d) ↔
      (∀ pre d post, es = pre ++ d :: post → P pre d) ∧ P es e := by
  constructor
  · intro h
    exact ⟨fun pre d post heq => h pre d (post ++ [e]) (by simp [heq]), h es e [] rfl⟩
  · rintro ⟨hbefore, hlast⟩ pre d post heq
    rcases List.eq_nil_or_concat post with rfl | ⟨post', c, rfl⟩
    · obtain ⟨rfl, rfl⟩ : es = pre ∧ e = d := by
        simpa using List.append_inj' heq rfl
      exact hlast
    · have heq' : es ++ [e] = (pre ++ d :: post') ++ [c] := by simpa using heq
      exact hbefore pre d post' (List.append_inj' heq' rfl).1

end Steps

end Exec

/-! ## Runs -/

section Runs

variable {σ ε : Type}

/-- A run: the events taken one after the other from a first state to a last one. -/
inductive Run (Step : σ → ε → σ → Prop) : σ → List ε → σ → Prop
  | nil (s : σ) : Run Step s [] s
  | snoc {s t u : σ} {es : List ε} {e : ε} : Run Step s es t → Step t e u → Run Step s (es ++ [e]) u

/-- What holds at first and is kept by every step holds after every run. -/
theorem Run.invariant {Step : σ → ε → σ → Prop} {Inv : σ → Prop}
    (hstep : ∀ {s e t}, Inv s → Step s e t → Inv t) {s t : σ} {es : List ε}
    (hrun : Run Step s es t) (hinit : Inv s) : Inv t := by
  induction hrun with
  | nil => exact hinit
  | snoc _ he ih => exact hstep ih he

/-- Under an invariant, two conditions on steps that come to the same allow the same runs. -/
theorem Run.congr {Step P Q : σ → ε → σ → Prop} {Inv : σ → Prop}
    (hiff : ∀ {s e t}, Inv s → Step s e t → (P s e t ↔ Q s e t))
    (hkeep : ∀ {s e t}, Inv s → Step s e t → P s e t → Inv t) {s t : σ} {es : List ε}
    (hinit : Inv s) :
    Run (fun s e t => Step s e t ∧ P s e t) s es t ↔
      Run (fun s e t => Step s e t ∧ Q s e t) s es t := by
  constructor
  · intro hrun
    have hboth : Inv t ∧ Run (fun s e t => Step s e t ∧ Q s e t) s es t := by
      induction hrun with
      | nil => exact ⟨hinit, .nil s⟩
      | snoc _ he ih =>
          exact ⟨hkeep ih.1 he.1 he.2, .snoc ih.2 ⟨he.1, (hiff ih.1 he.1).1 he.2⟩⟩
    exact hboth.2
  · intro hrun
    have hboth : Inv t ∧ Run (fun s e t => Step s e t ∧ P s e t) s es t := by
      induction hrun with
      | nil => exact ⟨hinit, .nil s⟩
      | snoc _ he ih =>
          have hp := (hiff ih.1 he.1).2 he.2
          exact ⟨hkeep ih.1 he.1 hp, .snoc ih.2 ⟨he.1, hp⟩⟩
    exact hboth.2

/-- A run with a stronger step is a run. -/
theorem Run.mono {Step Step' : σ → ε → σ → Prop} (h : ∀ {s e t}, Step s e t → Step' s e t)
    {s t : σ} {es : List ε} (hrun : Run Step s es t) : Run Step' s es t := by
  induction hrun with
  | nil => exact .nil s
  | snoc _ he ih => exact .snoc ih (h he)

end Runs

end Lib
end CkptRestart
