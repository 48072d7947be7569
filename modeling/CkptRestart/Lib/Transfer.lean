import Mathlib.Data.List.Basic
import Mathlib.Data.List.Infix

/-!
# Transfer — moving a block in pieces

A transfer primitive is asked for some number of units and answers with a `Reply`: it moved a few
of them, or it failed.  A caller that wants all of them calls again and again, retries the failures
that mean "try again", and gives up on the others.  `drive` is that loop over a finite schedule of
replies; it does not depend on what is moved or on which failures are retried.

`results` lists what the calls of the loop answer, and `Accounts` says that these answers account for
all the loop has done.  `Delivers` says, of a schedule alone, that a whole sequence of requests is
carried out in full.
-/

namespace CkptRestart
namespace Lib

/-! ## The loop -/

/-- The answer of one call: at most `k` units were moved, or the call failed. -/
inductive Reply (ε : Type)
  | moved (k : Nat)
  | error (e : ε)
  deriving DecidableEq, Repr

inductive Ending (ε : Type)
  | full
  | stopped
  | failed (e : ε)
  deriving DecidableEq, Repr

structure Progress (ε : Type) where
  moved : Nat
  ending : Ending ε
  rest : List (Reply ε)
  deriving DecidableEq, Repr

namespace Progress

variable {ε : Type}

def add (k : Nat) (p : Progress ε) : Progress ε :=
  { p with moved := p.moved + k }

@[simp] theorem add_moved (k : Nat) (p : Progress ε) : (p.add k).moved = p.moved + k := rfl
@[simp] theorem add_ending (k : Nat) (p : Progress ε) : (p.add k).ending = p.ending := rfl
@[simp] theorem add_rest (k : Nat) (p : Progress ε) : (p.add k).rest = p.rest := rfl

end Progress

section Drive

variable {ε : Type} (retry : ε → Bool)

/-- Ask for `want` units, of which the other side has `avail`, until all are moved, a call moves
none, or a call fails for good.  `none`: the schedule ends before the loop does. -/
def drive : List (Reply ε) → Nat → Nat → Option (Progress ε)
  | sched, 0, _ => some ⟨0, .full, sched⟩
  | [], _ + 1, _ => none
  -- a failure that means "try again" has moved nothing
  | .error e :: sched, want + 1, avail =>
      if retry e then drive sched (want + 1) avail
      else some ⟨0, .failed e, sched⟩
  -- no call moves more than it is asked for, or more than there is
  | .moved k :: sched, want + 1, avail =>
      match min k (min (want + 1) avail) with
      | 0 => some ⟨0, .stopped, sched⟩
      | m + 1 => (drive sched (want - m) (avail - (m + 1))).map (Progress.add (m + 1))

@[simp] theorem drive_zero (sched : List (Reply ε)) (avail : Nat) :
    drive retry sched 0 avail = some ⟨0, .full, sched⟩ := by
  cases sched with
  | nil => rfl
  | cons r sched => cases r <;> rfl

/-! ## What the loop has done when it ends -/

structure Driven (sched : List (Reply ε)) (want avail : Nat) (p : Progress ε) : Prop where
  moved_le_want : p.moved ≤ want
  moved_le_avail : p.moved ≤ avail
  full_iff : p.ending = .full ↔ p.moved = want
  rest_suffix : p.rest <:+ sched
  rest_shorter : 0 < want → p.rest.length < sched.length

theorem drive_driven {sched : List (Reply ε)} {want avail : Nat} {p : Progress ε}
    (h : drive retry sched want avail = some p) : Driven sched want avail p := by
  -- on the schedule: every reply is either the last one, or leaves a smaller request to the rest
  induction sched generalizing want avail p with
  | nil =>
      cases want with
      | zero =>
          obtain rfl : _ = p := by simpa using h
          exact ⟨by simp, by simp, by simp, List.suffix_rfl, by simp⟩
      | succ want => simp [drive] at h
  | cons r sched ih =>
      cases want with
      | zero =>
          obtain rfl : _ = p := by simpa using h
          exact ⟨by simp, by simp, by simp, List.suffix_rfl, by simp⟩
      | succ want =>
          cases r with
          | error e =>
              by_cases hr : retry e = true
              · have hd : Driven sched (want + 1) avail p := ih (by simpa [drive, hr] using h)
                have hlt := hd.rest_shorter (Nat.succ_pos want)
                exact ⟨hd.moved_le_want, hd.moved_le_avail, hd.full_iff,
                  hd.rest_suffix.trans (List.suffix_cons _ _),
                  fun _ => Nat.lt_succ_of_lt hlt⟩
              · obtain rfl : _ = p := by simpa [drive, hr] using h
                exact ⟨by simp, by simp, by simp, List.suffix_cons _ _, by simp⟩
          | moved k =>
              cases hm : min k (min (want + 1) avail) with
              | zero =>
                  obtain rfl : _ = p := by simpa [drive, hm] using h
                  exact ⟨by simp, by simp, by simp, List.suffix_cons _ _, by simp⟩
              | succ m =>
                  have hm' : m ≤ want ∧ m + 1 ≤ avail := by omega
                  obtain ⟨q, hq, rfl⟩ : ∃ q, drive retry sched (want - m) (avail - (m + 1)) = some q ∧
                      q.add (m + 1) = p := by
                    simpa [drive, hm] using h
                  have hd := ih hq
                  have hle := hd.moved_le_want
                  have hav := hd.moved_le_avail
                  refine ⟨?_, ?_, ?_, ?_, ?_⟩
                  · simp only [Progress.add_moved]
                    omega
                  · simp only [Progress.add_moved]
                    omega
                  · rw [Progress.add_ending, hd.full_iff, Progress.add_moved]
                    omega
                  · exact hd.rest_suffix.trans (List.suffix_cons _ _)
                  · intro _
                    exact Nat.lt_succ_of_le hd.rest_suffix.length_le

/-! ## Schedules that fail -/

/-- A call fails for good after `n` units were moved, and before all were. -/
inductive FailsAfter : List (Reply ε) → Nat → Nat → Nat → Prop
  | fails {e : ε} {sched : List (Reply ε)} {want avail : Nat} (hfatal : retry e = false) :
      FailsAfter (.error e :: sched) (want + 1) avail 0
  | again {e : ε} {sched : List (Reply ε)} {want avail n : Nat} (hretry : retry e = true)
      (hrest : FailsAfter sched (want + 1) avail n) :
      FailsAfter (.error e :: sched) (want + 1) avail n
  | moves {k m : Nat} {sched : List (Reply ε)} {want avail n : Nat}
      (hmoved : min k (min (want + 1) avail) = m + 1)
      (hrest : FailsAfter sched (want - m) (avail - (m + 1)) n) :
      FailsAfter (.moved k :: sched) (want + 1) avail (n + (m + 1))

theorem FailsAfter.drive {sched : List (Reply ε)} {want avail n : Nat}
    (h : FailsAfter retry sched want avail n) :
    ∃ p e, Lib.drive retry sched want avail = some p ∧ p.ending = .failed e ∧ p.moved = n := by
  induction h with
  | @fails e sched want avail hfatal =>
      exact ⟨⟨0, .failed e, sched⟩, e, by simp [Lib.drive, hfatal], rfl, rfl⟩
  | again hretry hrest ih =>
      rcases ih with ⟨p, e, hp, hend, hmoved⟩
      exact ⟨p, e, by simpa [Lib.drive, hretry] using hp, hend, hmoved⟩
  | @moves k m sched want avail n hmoved hrest ih =>
      rcases ih with ⟨p, e, hp, hend, rfl⟩
      exact ⟨p.add (m + 1), e, by simp [Lib.drive, hmoved, hp], hend, rfl⟩

theorem FailsAfter.of_drive {sched : List (Reply ε)} {want avail : Nat} {p : Progress ε} {e : ε}
    (h : Lib.drive retry sched want avail = some p) (hend : p.ending = .failed e) :
    FailsAfter retry sched want avail p.moved := by
  induction sched generalizing want avail p with
  | nil =>
      cases want with
      | zero =>
          obtain rfl : _ = p := by simpa using h
          simp at hend
      | succ want => simp [Lib.drive] at h
  | cons r sched ih =>
      cases want with
      | zero =>
          obtain rfl : _ = p := by simpa using h
          simp at hend
      | succ want =>
          cases r with
          | error e' =>
              by_cases hr : retry e' = true
              · exact .again hr (ih (by simpa [Lib.drive, hr] using h) hend)
              · obtain rfl : _ = p := by simpa [Lib.drive, hr] using h
                exact .fails (by simpa using hr)
          | moved k =>
              cases hm : min k (min (want + 1) avail) with
              | zero =>
                  obtain rfl : _ = p := by simpa [Lib.drive, hm] using h
                  simp at hend
              | succ m =>
                  obtain ⟨q, hq, rfl⟩ : ∃ q, Lib.drive retry sched (want - m) (avail - (m + 1)) =
                      some q ∧ q.add (m + 1) = p := by
                    simpa [Lib.drive, hm] using h
                  exact .moves hm (ih hq hend)

/-! ## Schedules that never give up -/

/-- A reply that moves something or asks for a retry. -/
def Prompt (r : Reply ε) : Prop :=
  match r with
  | .moved k => 0 < k
  | .error e => retry e = true

def strength : List (Reply ε) → Nat
  | [] => 0
  | .moved _ :: sched => strength sched + 1
  | .error _ :: sched => strength sched

theorem strength_le_length (sched : List (Reply ε)) : strength sched ≤ sched.length := by
  induction sched with
  | nil => exact le_rfl
  | cons r sched ih =>
      cases r with
      | error e => exact Nat.le_succ_of_le ih
      | moved k => exact Nat.succ_le_succ ih

theorem strength_moved (ks : List Nat) : strength (ks.map (Reply.moved : Nat → Reply ε)) = ks.length := by
  induction ks with
  | nil => rfl
  | cons k ks ih => simp [strength, ih]

/-- Prompt replies in sufficient number carry a request out in full. -/
theorem drive_prompt {sched : List (Reply ε)} {want avail : Nat}
    (hprompt : ∀ r ∈ sched, Prompt retry r) (havail : want ≤ avail) (hlen : want ≤ strength sched) :
    ∃ p, drive retry sched want avail = some p ∧ p.moved = want ∧ p.ending = .full ∧
      strength sched ≤ strength p.rest + want := by
  induction sched generalizing want avail with
  | nil =>
      obtain rfl : want = 0 := by simpa [strength] using hlen
      exact ⟨⟨0, .full, []⟩, by simp, rfl, rfl, by simp⟩
  | cons r sched ih =>
      have htail : ∀ r ∈ sched, Prompt retry r := fun r hr => hprompt r (List.mem_cons_of_mem _ hr)
      cases want with
      | zero => exact ⟨⟨0, .full, r :: sched⟩, by simp, rfl, rfl, by simp⟩
      | succ want =>
          cases r with
          | error e =>
              have hr : retry e = true := hprompt (.error e) (by simp)
              obtain ⟨p, hp, hmoved, hfull, hrest⟩ := ih htail havail hlen
              exact ⟨p, by simpa [drive, hr] using hp, hmoved, hfull, by simpa [strength] using hrest⟩
          | moved k =>
              have hk : 0 < k := hprompt (.moved k) (by simp)
              obtain ⟨m, hm⟩ : ∃ m, min k (min (want + 1) avail) = m + 1 :=
                ⟨min k (min (want + 1) avail) - 1, by omega⟩
              -- a call that moves several units leaves replies to spare
              have hlen' : want ≤ strength sched := by simpa [strength] using hlen
              have havail' : want - m ≤ avail - (m + 1) := by omega
              obtain ⟨p, hp, hmoved, hfull, hrest⟩ := ih htail havail' (by omega)
              refine ⟨p.add (m + 1), by simp [drive, hm, hp], ?_, by simpa using hfull, ?_⟩
              · simp only [Progress.add_moved]
                omega
              · simp only [strength, Progress.add_rest]
                omega

/-- A prompt schedule that is asked for more than there is moves all there is and stops. -/
theorem drive_prompt_short {sched : List (Reply ε)} {want avail : Nat}
    (hprompt : ∀ r ∈ sched, Prompt retry r) (hwant : avail < want) (hlen : avail < strength sched) :
    ∃ p, drive retry sched want avail = some p ∧ p.moved = avail ∧ p.ending = .stopped ∧
      strength sched ≤ strength p.rest + avail + 1 := by
  induction sched generalizing want avail with
  | nil => simp [strength] at hlen
  | cons r sched ih =>
      have htail : ∀ r ∈ sched, Prompt retry r := fun r hr => hprompt r (List.mem_cons_of_mem _ hr)
      cases want with
      | zero => exact absurd hwant (Nat.not_lt_zero _)
      | succ want =>
          cases r with
          | error e =>
              have hr : retry e = true := hprompt (.error e) (by simp)
              rcases ih htail hwant hlen with ⟨p, hp, hmoved, hstop, hrest⟩
              exact ⟨p, by simpa [drive, hr] using hp, hmoved, hstop, hrest⟩
          | moved k =>
              cases avail with
              | zero => exact ⟨⟨0, .stopped, sched⟩, by simp [drive], rfl, rfl, le_rfl⟩
              | succ avail =>
                  have hk : 0 < k := hprompt (.moved k) (by simp)
                  obtain ⟨m, hm⟩ : ∃ m, min k (min (want + 1) (avail + 1)) = m + 1 :=
                    ⟨min k (min (want + 1) (avail + 1)) - 1, by omega⟩
                  have hlen' : avail < strength sched := Nat.lt_of_succ_lt_succ hlen
                  have hwant' : avail + 1 - (m + 1) < want - m := by omega
                  rcases ih htail hwant' (by omega) with ⟨p, hp, hmoved, hstop, hrest⟩
                  refine ⟨p.add (m + 1), by simp only [drive, hm, hp, Option.map_some], ?_,
                    by simpa using hstop, ?_⟩
                  · simp only [Progress.add_moved]
                    omega
                  · simp only [strength, Progress.add_rest]
                    omega

/-! ## A loop that calls at least once -/

/-- A loop that calls at least once, also when nothing is wanted; the other side has no end. -/
def driveOnce : List (Reply ε) → Nat → Option (Progress ε)
  | [], 0 => none
  | .error e :: sched, 0 => some ⟨0, if retry e then .full else .failed e, sched⟩
  | .moved _ :: sched, 0 => some ⟨0, .full, sched⟩
  | sched, want + 1 => drive retry sched (want + 1) (want + 1)

@[simp] theorem driveOnce_succ (sched : List (Reply ε)) (want : Nat) :
    driveOnce retry sched (want + 1) = drive retry sched (want + 1) (want + 1) := by
  cases sched with
  | nil => rfl
  | cons r sched => cases r <;> rfl

theorem driveOnce_of_pos {want : Nat} (h : 0 < want) (sched : List (Reply ε)) :
    driveOnce retry sched want = drive retry sched want want := by
  cases want with
  | zero => exact absurd h (lt_irrefl 0)
  | succ want => exact driveOnce_succ retry sched want

theorem driveOnce_moved_le {sched : List (Reply ε)} {want : Nat} {p : Progress ε}
    (h : driveOnce retry sched want = some p) : p.moved ≤ want := by
  cases want with
  | succ want => exact (drive_driven retry (by simpa using h)).moved_le_want
  | zero =>
      cases sched with
      | nil => simp [driveOnce] at h
      | cons r sched =>
          cases r <;>
          · obtain rfl : _ = p := by simpa [driveOnce] using h
            simp

/-! ## What the calls answer -/

/-- The results that the calls of `drive` have, in the order of the calls. -/
def results : List (Reply ε) → Nat → Nat → List (Reply ε)
  | _, 0, _ => []
  | [], _ + 1, _ => []
  | .error e :: sched, want + 1, avail =>
      .error e :: if retry e then results sched (want + 1) avail else []
  | .moved k :: sched, want + 1, avail =>
      match min k (min (want + 1) avail) with
      | 0 => [.moved 0]
      | m + 1 => .moved (m + 1) :: results sched (want - m) (avail - (m + 1))

/-- The same for `driveOnce`.  A call that is asked for nothing moves nothing. -/
def resultsOnce : List (Reply ε) → Nat → List (Reply ε)
  | [], 0 => []
  | .error e :: _, 0 => [.error e]
  | .moved _ :: _, 0 => [.moved 0]
  | sched, want + 1 => results retry sched (want + 1) (want + 1)

/-- A failure that is not retried. -/
def Fatal (r : Reply ε) : Prop :=
  match r with
  | .moved _ => False
  | .error e => retry e = false

instance : DecidablePred (Fatal retry) := fun r =>
  match r with
  | .moved _ => inferInstanceAs (Decidable False)
  | .error e => inferInstanceAs (Decidable (retry e = false))

@[simp] theorem not_fatal_moved (k : Nat) : ¬ Fatal retry (.moved k) := id

@[simp] theorem fatal_error {e : ε} : Fatal retry (.error e) ↔ retry e = false := Iff.rfl

/-- The units that a sequence of results has moved. -/
def total : List (Reply ε) → Nat
  | [] => 0
  | .moved k :: rs => total rs + k
  | .error _ :: rs => total rs

@[simp] theorem results_zero (sched : List (Reply ε)) (avail : Nat) :
    results retry sched 0 avail = [] := by
  cases sched with
  | nil => rfl
  | cons r sched => cases r <;> rfl

@[simp] theorem resultsOnce_succ (sched : List (Reply ε)) (want : Nat) :
    resultsOnce retry sched (want + 1) = results retry sched (want + 1) (want + 1) := by
  cases sched with
  | nil => rfl
  | cons r sched => cases r <;> rfl

/-- The results `rs` of the calls account for all that a finished loop has done. -/
structure Accounts (sched rs : List (Reply ε)) (want : Nat) (p : Progress ε) : Prop where
  moved : p.moved = total rs
  rest : p.rest = sched.drop rs.length
  failed_iff : (∃ e, p.ending = .failed e) ↔ ∃ r ∈ rs, Fatal retry r
  whole : (¬ ∃ r ∈ rs, Fatal retry r) → .moved 0 ∉ rs → p.moved = want

namespace Accounts

variable {retry} {sched rs : List (Reply ε)} {want : Nat} {p : Progress ε}

/-- Nothing was asked for, and no call was made. -/
theorem idle (sched : List (Reply ε)) : Accounts retry sched [] 0 ⟨0, .full, sched⟩ where
  moved := rfl
  rest := rfl
  failed_iff := by simp
  whole _ _ := rfl

theorem fatal {e : ε} (he : retry e = false) (sched : List (Reply ε)) (want : Nat) :
    Accounts retry (.error e :: sched) [.error e] want ⟨0, .failed e, sched⟩ where
  moved := rfl
  rest := rfl
  failed_iff := by simp [he]
  whole hok := absurd ⟨.error e, List.mem_singleton_self _, he⟩ hok

/-- A result of zero ends the loop without an error. -/
theorem zero (k : Nat) (sched : List (Reply ε)) (want : Nat) {ending : Ending ε}
    (hend : ∀ e, ending ≠ .failed e) :
    Accounts retry (.moved k :: sched) [.moved 0] want ⟨0, ending, sched⟩ where
  moved := rfl
  rest := rfl
  failed_iff := by simp [hend]
  whole _ hzero := absurd (List.mem_singleton_self _) hzero

theorem whole_of_cons (h : Accounts retry sched rs want p) {r : Reply ε}
    (hok : ¬ ∃ r' ∈ r :: rs, Fatal retry r') (hzero : .moved 0 ∉ r :: rs) : p.moved = want := by
  refine h.whole ?_ (fun hmem => hzero (List.mem_cons_of_mem _ hmem))
  rintro ⟨r', hr', hfatal⟩
  exact hok ⟨r', List.mem_cons_of_mem _ hr', hfatal⟩

theorem again {e : ε} (he : retry e = true) (h : Accounts retry sched rs want p) :
    Accounts retry (.error e :: sched) (.error e :: rs) want p where
  moved := h.moved
  rest := h.rest
  failed_iff := by simpa [he] using h.failed_iff
  whole hok hzero := h.whole_of_cons hok hzero

theorem moves {k m : Nat} (hm : m + 1 ≤ want) (h : Accounts retry sched rs (want - (m + 1)) p) :
    Accounts retry (.moved k :: sched) (.moved (m + 1) :: rs) want (p.add (m + 1)) where
  moved := by rw [Progress.add_moved, h.moved, total]
  rest := h.rest
  failed_iff := by simpa using h.failed_iff
  whole hok hzero := by
    have hrest : p.moved = want - (m + 1) := h.whole_of_cons hok hzero
    rw [Progress.add_moved, hrest]
    omega

end Accounts

theorem results_accounts {sched : List (Reply ε)} {want avail : Nat} {p : Progress ε}
    (h : drive retry sched want avail = some p) :
    Accounts retry sched (results retry sched want avail) want p := by
  -- on the schedule: each reply is one call, whose result stands in front of those of the rest
  induction sched generalizing want avail p with
  | nil =>
      cases want with
      | zero =>
          obtain rfl : _ = p := by simpa using h
          exact .idle []
      | succ want => simp [drive] at h
  | cons r sched ih =>
      cases want with
      | zero =>
          obtain rfl : _ = p := by simpa using h
          simpa using Accounts.idle (r :: sched)
      | succ want =>
          cases r with
          | error e =>
              by_cases he : retry e = true
              · have hrest : drive retry sched (want + 1) avail = some p := by
                  simpa [drive, he] using h
                have hd := ih hrest
                simpa [results, he] using hd.again he
              · obtain rfl : _ = p := by simpa [drive, he] using h
                simpa [results, he] using Accounts.fatal (by simpa using he) sched (want + 1)
          | moved k =>
              cases hm : min k (min (want + 1) avail) with
              | zero =>
                  obtain rfl : _ = p := by simpa [drive, hm] using h
                  simpa [results, hm] using Accounts.zero k sched (want + 1) (by simp)
              | succ m =>
                  obtain ⟨q, hq, rfl⟩ : ∃ q, drive retry sched (want - m) (avail - (m + 1)) = some q ∧
                      q.add (m + 1) = p := by
                    simpa [drive, hm] using h
                  have hle : m + 1 ≤ want + 1 := by omega
                  have hd := ih hq
                  rw [← Nat.add_sub_add_right want 1 m] at hd
                  simpa [results, hm] using hd.moves hle

theorem resultsOnce_accounts {sched : List (Reply ε)} {want : Nat} {p : Progress ε}
    (h : driveOnce retry sched want = some p) :
    Accounts retry sched (resultsOnce retry sched want) want p := by
  cases want with
  | succ want => simpa using results_accounts retry (by simpa using h)
  | zero =>
      cases sched with
      | nil => simp [driveOnce] at h
      | cons r sched =>
          cases r with
          | error e =>
              by_cases he : retry e = true
              · obtain rfl : _ = p := by simpa [driveOnce, he] using h
                exact (Accounts.idle sched).again he
              · obtain rfl : _ = p := by simpa [driveOnce, he] using h
                exact .fatal (by simpa using he) sched 0
          | moved k =>
              obtain rfl : _ = p := by simpa [driveOnce] using h
              exact .zero k sched 0 (by simp)

/-! ## Sequences of requests -/

/-- Of a schedule alone: the requests, made one after the other, are all carried out in full. -/
def Delivers : List (Reply ε) → List Nat → Prop
  | _, [] => True
  | sched, want :: wants =>
      ∃ p, driveOnce retry sched want = some p ∧ p.moved = want ∧ Delivers p.rest wants

/-- A reply for every request that moves all of it delivers them all. -/
theorem delivers_moved (wants : List Nat) : Delivers retry (wants.map Reply.moved) wants := by
  induction wants with
  | nil => trivial
  | cons want wants ih =>
      cases want with
      | zero => exact ⟨⟨0, .full, wants.map .moved⟩, rfl, rfl, ih⟩
      | succ want =>
          refine ⟨⟨want + 1, .full, wants.map .moved⟩, ?_, rfl, ih⟩
          simp [drive, Progress.add]

theorem delivers_cons_of_full {sched : List (Reply ε)} {want : Nat} {wants : List Nat}
    {p : Progress ε} (h : driveOnce retry sched want = some p) (hfull : p.moved = want) :
    Delivers retry sched (want :: wants) ↔ Delivers retry p.rest wants := by
  constructor
  · rintro ⟨q, hq, _, hrest⟩
    obtain rfl : p = q := Option.some.inj (h.symm.trans hq)
    exact hrest
  · intro hrest
    exact ⟨p, h, hfull, hrest⟩

end Drive

end Lib
end CkptRestart
