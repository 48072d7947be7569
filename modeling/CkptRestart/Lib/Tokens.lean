import Mathlib.Data.List.TakeWhile

/-!
# Tokens — the words of a text

The words of a text are its nonempty pieces between separators.  `nextToken` takes the first of them
off, as `strtok` does, and `nthToken_eq` says that doing so `n + 1` times gives the word at `n`.
-/

namespace CkptRestart
namespace Lib

variable {α : Type} [DecidableEq α] {sep : α}

def tokens (sep : α) (s : List α) : List (List α) := (s.splitOn sep).filter (· ≠ [])

/-- The first word, and the text behind the separator that ends it. -/
def nextToken (sep : α) (s : List α) : Option (List α × List α) :=
  match s.dropWhile (· = sep) with
  | [] => none
  | c :: cs => some ((c :: cs).takeWhile (· ≠ sep), ((c :: cs).dropWhile (· ≠ sep)).tail)

def nthToken (sep : α) : Nat → List α → Option (List α)
  | 0, s => (nextToken sep s).map Prod.fst
  | n + 1, s => (nextToken sep s).bind fun next => nthToken sep n next.2

/-! ## Words -/

theorem tokens_append_cons (s t : List α) :
    tokens sep (s ++ sep :: t) = tokens sep s ++ tokens sep t := by
  simp [tokens, List.splitOn_append_cons_self]

theorem tokens_of_not_mem {s : List α} (h : sep ∉ s) (hne : s ≠ []) : tokens sep s = [s] := by
  simp [tokens, List.splitOn_eq_singleton h, hne]

@[simp] theorem tokens_nil : tokens sep [] = [] := by
  simp [tokens]

@[simp] theorem tokens_cons_sep (s : List α) : tokens sep (sep :: s) = tokens sep s := by
  have h := @tokens_append_cons α _ sep [] s
  simpa using h

/-- A text with a word in it. -/
theorem tokens_ne_nil {s : List α} {c : α} (hc : c ∈ s) (hne : c ≠ sep) : tokens sep s ≠ [] := by
  induction s with
  | nil => cases hc
  | cons d s ih =>
      by_cases hd : d = sep
      · subst hd
        rw [tokens_cons_sep]
        exact ih ((List.mem_cons.1 hc).resolve_left hne)
      · -- the first piece is not empty
        obtain ⟨piece, pieces, hsplit⟩ := List.exists_cons_of_ne_nil (List.splitOn_ne_nil sep s)
        simp [tokens, List.splitOn_cons_eq_if_modifyHead, hd, hsplit]

/-- Words that are each followed by a separator. -/
theorem tokens_flatMap (ws : List (List α)) (s : List α) :
    tokens sep (ws.flatMap (· ++ [sep]) ++ s) = ws.flatMap (tokens sep) ++ tokens sep s := by
  induction ws with
  | nil => rfl
  | cons w ws ih =>
      calc tokens sep ((w :: ws).flatMap (· ++ [sep]) ++ s)
          = tokens sep (w ++ sep :: (ws.flatMap (· ++ [sep]) ++ s)) := by simp
        _ = tokens sep w ++ tokens sep (ws.flatMap (· ++ [sep]) ++ s) := tokens_append_cons _ _
        _ = (w :: ws).flatMap (tokens sep) ++ tokens sep s := by simp [ih]

/-! ## One word after the other -/

theorem tokens_dropWhile (s : List α) : tokens sep (s.dropWhile (· = sep)) = tokens sep s := by
  induction s with
  | nil => rfl
  | cons d s ih =>
      by_cases hd : d = sep
      · subst hd
        simpa using ih
      · simp [hd]

theorem nextToken_eq_none {s : List α} (h : nextToken sep s = none) : tokens sep s = [] := by
  rw [← tokens_dropWhile]
  unfold nextToken at h
  split at h
  · next hnil => rw [hnil, tokens_nil]
  · cases h

theorem nextToken_eq_some {s w rest : List α} (h : nextToken sep s = some (w, rest)) :
    tokens sep s = w :: tokens sep rest := by
  rw [← tokens_dropWhile]
  unfold nextToken at h
  split at h
  · cases h
  · next c cs hcons =>
      have hhead : c ≠ sep := by
        have hnot := List.head?_dropWhile_not (fun d => decide (d = sep)) s
        rw [hcons] at hnot
        simpa using hnot
      cases h
      rw [hcons]
      -- the word ends at a separator or with the text
      have hword : sep ∉ (c :: cs).takeWhile (· ≠ sep) := fun hin => by
        simpa using List.mem_takeWhile_imp hin
      have hne : (c :: cs).takeWhile (· ≠ sep) ≠ [] := by simp [hhead]
      cases hrest : (c :: cs).dropWhile (· ≠ sep) with
      | nil =>
          have hall : (c :: cs).takeWhile (· ≠ sep) = c :: cs := by
            have happ := @List.takeWhile_append_dropWhile _ (· ≠ sep) (c :: cs)
            rw [hrest, List.append_nil] at happ
            exact happ
          rw [hall] at hword hne ⊢
          rw [tokens_of_not_mem hword hne, List.tail_nil, tokens_nil]
      | cons d ds =>
          have hd : d = sep := by
            have hnot := List.head?_dropWhile_not (fun d => decide (d ≠ sep)) (c :: cs)
            rw [hrest] at hnot
            simpa using hnot
          subst hd
          calc tokens d (c :: cs)
              = tokens d ((c :: cs).takeWhile (· ≠ d) ++ d :: ds) := by
                rw [← hrest, List.takeWhile_append_dropWhile]
            _ = tokens d ((c :: cs).takeWhile (· ≠ d)) ++ tokens d ds := tokens_append_cons _ _
            _ = (c :: cs).takeWhile (· ≠ d) :: tokens d ds := by
                rw [tokens_of_not_mem hword hne]
                rfl

theorem nthToken_eq (n : Nat) (s : List α) : nthToken sep n s = (tokens sep s)[n]? := by
  induction n generalizing s with
  | zero =>
      cases h : nextToken sep s with
      | none => simp [nthToken, h, nextToken_eq_none h]
      | some next => simp [nthToken, h, nextToken_eq_some h]
  | succ n ih =>
      cases h : nextToken sep s with
      | none => simp [nthToken, h, nextToken_eq_none h]
      | some next => simp [nthToken, h, nextToken_eq_some h, ih]

end Lib
end CkptRestart
