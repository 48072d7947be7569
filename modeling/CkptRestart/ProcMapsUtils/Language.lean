import CkptRestart.ProcMapsUtils
import CkptRestart.Lib.Scanner

/-!
# ProcMapsUtils.Language — what `readMapsLine` accepts

`readsLines` is about lines that the kernel printed.  Here the input is any text at all, and the
question is which lines `readMapsLine` takes, what it takes for the end of the file, and what happens
to a process whose maps file is anything else.

A `MapsLine` is a line as the parser understands it: digits of either case, any number of them or
none, a number of more than 64 bits, a NUL in the name.  `readMaps_iff` says that the callers' loop
yields areas exactly on the files made of such lines and an end mark, and leaves on all others.
-/

namespace CkptRestart

open Lib

/-! ## The characters that arrive -/

/-- What the coming calls of `readChar` return: the bytes of the file, and a zero for its end and for
each call that fails. -/
def arriving : List UInt8 → List (Reply Errno) → List UInt8
  | _, [] => []
  | stream, .error e :: replies =>
      if e = .EINTR then arriving stream replies else 0 :: arriving stream replies
  | [], .moved _ :: replies => 0 :: arriving [] replies
  | c :: stream, .moved k :: replies =>
      if k = 0 then 0 :: arriving (c :: stream) replies else c :: arriving stream replies

def InFile.text (fd : InFile) : List UInt8 := arriving fd.stream fd.replies

theorem readCharLoop_text (stream : List UInt8) (replies : List (Reply Errno)) :
    (readCharLoop stream replies = none ∧ arriving stream replies = []) ∨
      ∃ c fd, readCharLoop stream replies = some (c, fd) ∧
        arriving stream replies = c :: fd.text := by
  induction replies with
  | nil => exact .inl ⟨rfl, by cases stream <;> rfl⟩
  | cons q replies ih =>
      cases q with
      | error e =>
          by_cases he : e = .EINTR
          · cases stream <;> simpa [readCharLoop, arriving, he] using ih
          · exact .inr ⟨0, ⟨stream, replies⟩, by simp [readCharLoop, he],
              by cases stream <;> simp [arriving, he, InFile.text]⟩
      | moved k =>
          cases stream with
          | nil => exact .inr ⟨0, ⟨[], replies⟩, rfl, rfl⟩
          | cons c stream =>
              by_cases hk : k = 0
              · exact .inr ⟨0, ⟨c :: stream, replies⟩, by simp [readCharLoop, hk],
                  by simp [arriving, hk, InFile.text]⟩
              · exact .inr ⟨c, ⟨stream, replies⟩, by simp [readCharLoop, hk],
                  by simp [arriving, hk, InFile.text]⟩

theorem readChar_eq_some {fd fd' : InFile} {c : UInt8} (h : readChar fd = some (c, fd')) :
    fd.text = c :: fd'.text := by
  rcases readCharLoop_text fd.stream fd.replies with ⟨hnone, _⟩ | ⟨d, fd₁, hsome, htext⟩
  · cases hnone.symm.trans h
  · cases hsome.symm.trans h
    exact htext

theorem readChar_eq_none {fd : InFile} (h : readChar fd = none) : fd.text = [] := by
  rcases readCharLoop_text fd.stream fd.replies with ⟨_, htext⟩ | ⟨c, fd', hsome, _⟩
  · exact htext
  · cases hsome.symm.trans h

theorem length_text_le (fd : InFile) : fd.text.length ≤ fd.replies.length := by
  rcases fd with ⟨stream, replies⟩
  show (arriving stream replies).length ≤ replies.length
  induction replies generalizing stream with
  | nil => cases stream <;> exact le_rfl
  | cons q replies ih =>
      have hstream := ih stream
      cases q with
      | error e =>
          by_cases he : e = .EINTR
          · cases stream <;> simp [arriving, he] <;> omega
          · cases stream <;> simp [arriving, he] <;> omega
      | moved k =>
          cases stream with
          | nil => simpa [arriving] using hstream
          | cons c stream =>
              have htail := ih stream
              by_cases hk : k = 0
              · simpa [arriving, hk] using hstream
              · simpa [arriving, hk] using htail

/-- Reads that do not fail deliver the file, and then a zero each. -/
theorem text_of_prompt {fd : InFile}
    (hprompt : ∀ r ∈ fd.replies, Prompt (fun e => decide (e = .EINTR)) r)
    (henough : fd.stream.length ≤ strength fd.replies) :
    fd.text = fd.stream ++ List.replicate (strength fd.replies - fd.stream.length) 0 := by
  rcases fd with ⟨stream, replies⟩
  show arriving stream replies = stream ++ List.replicate (strength replies - stream.length) 0
  replace hprompt : ∀ r ∈ replies, Prompt (fun e => decide (e = .EINTR)) r := hprompt
  replace henough : stream.length ≤ strength replies := henough
  induction replies generalizing stream with
  | nil =>
      obtain rfl : stream = [] := List.eq_nil_of_length_eq_zero (Nat.le_zero.1 henough)
      rfl
  | cons q replies ih =>
      have htail : ∀ r ∈ replies, Prompt (fun e => decide (e = .EINTR)) r :=
        fun r hr => hprompt r (List.mem_cons_of_mem _ hr)
      cases q with
      | error e =>
          -- the read is made again
          obtain rfl : e = .EINTR := by simpa [Prompt] using hprompt (.error e) (by simp)
          have hrest := ih stream htail henough
          cases stream <;> simpa [arriving, strength] using hrest
      | moved k =>
          have hk : k ≠ 0 := Nat.pos_iff_ne_zero.1 (hprompt (.moved k) (by simp))
          cases stream with
          | nil =>
              -- behind the end of the file `readChar` returns zeros
              have hrest := ih [] htail (Nat.zero_le _)
              simp [arriving, strength, hrest, List.replicate_succ]
          | cons c stream =>
              have hrest := ih stream htail (Nat.le_of_succ_le_succ henough)
              simp [arriving, strength, hk, hrest]

/-! ## Characters and numbers -/

/-- A result of `readChar`: the character, and the characters still to arrive. -/
def charView (r : UInt8 × InFile) : UInt8 × List UInt8 := (r.1, r.2.text)

def numberView (r : UInt8 × Nat × InFile) : (UInt8 × Nat) × List UInt8 := ((r.1, r.2.1), r.2.2.text)

variable {k : Nat}

/-- One character. -/
def CharText : Grammar UInt8 UInt8 := fun u c => u = [c]

theorem scans_readChar (fd : InFile) :
    Scans 0 k charView (Exec.ofOption (readChar fd)) fd.text CharText where
  sound := by
    rintro ⟨c, fd'⟩ hread
    exact ⟨[c], readChar_eq_some (Exec.ofOption_eq_ok_iff.1 hread), rfl⟩
  complete := by
    rintro u rest c htext rfl
    cases hread : readChar fd with
    | none => simp [readChar_eq_none hread] at htext
    | some r =>
        rcases r with ⟨d, fd'⟩
        rw [readChar_eq_some hread, List.singleton_append, List.cons.injEq] at htext
        exact ⟨(d, fd'), rfl, Prod.ext htext.1 htext.2⟩
  waits := by
    intro hrun
    cases hread : readChar fd with
    | none =>
        rw [readChar_eq_none hread]
        exact unended_nil
    | some r =>
        rw [hread] at hrun
        cases hrun

/-- A character that ends what is being read is followed by nothing more. -/
theorem length_text_readChar {fd fd' : InFile} {c : UInt8}
    (h : Exec.ofOption (readChar fd) = .ok (c, fd')) : fd.text.length = fd'.text.length + 1 := by
  rw [readChar_eq_some (Exec.ofOption_eq_ok_iff.1 h), List.length_cons]

theorem charText_last {u : List UInt8} {c : UInt8} (h : CharText u c) (hlast : u.getLast? = some 0) :
    c = 0 := by
  obtain rfl : u = [c] := h
  simpa using hlast

def Digits (digit : UInt8 → Option Nat) (ds : List UInt8) : Prop := ∀ d ∈ ds, (digit d).isSome

/-- The number that `ds` stands for behind digits of the value `v`, in 64 bits. -/
def numberFrom (digit : UInt8 → Option Nat) (base v : Nat) (ds : List UInt8) : Nat :=
  ds.foldl (fun v c => wrap (v * base + (digit c).getD 0)) v

/-- Digits, and the character that ends them. -/
def NumberText (digit : UInt8 → Option Nat) (base v : Nat) : Grammar UInt8 (UInt8 × Nat) :=
  fun u r =>
    ∃ ds, u = ds ++ [r.1] ∧ Digits digit ds ∧ digit r.1 = none ∧ r.2 = numberFrom digit base v ds

theorem numberText_last {digit : UInt8 → Option Nat} {base v : Nat} {u : List UInt8}
    {r : UInt8 × Nat} (h : NumberText digit base v u r) (hlast : u.getLast? = some 0) : r.1 = 0 := by
  rcases h with ⟨ds, rfl, _⟩
  simpa using hlast

/-- What comes behind the character `c` of a number. -/
def NumberRest (digit : UInt8 → Option Nat) (base v : Nat) (c : UInt8) :
    Grammar UInt8 (UInt8 × Nat) :=
  (digit c).elim (.Done (c, v)) fun d => NumberText digit base (wrap (v * base + d))

/-- A number is a character and what comes behind it. -/
theorem numberText_iff {digit : UInt8 → Option Nat} {base v : Nat} {u : List UInt8}
    {r : UInt8 × Nat} :
    Grammar.Seq CharText (NumberRest digit base v) u r ↔ NumberText digit base v u r := by
  rcases r with ⟨c, w⟩
  constructor
  · rintro ⟨_, _, d, rfl, rfl, hrest⟩
    cases hdigit : digit d with
    | none =>
        rw [NumberRest, hdigit] at hrest
        obtain ⟨rfl, hr⟩ := hrest
        cases hr
        exact ⟨[], rfl, by simp [Digits], hdigit, rfl⟩
    | some n =>
        rw [NumberRest, hdigit] at hrest
        rcases hrest with ⟨ds, rfl, hds, hc, hw⟩
        refine ⟨d :: ds, rfl, ?_, hc, by simpa [numberFrom, hdigit] using hw⟩
        rintro b hb
        rcases List.mem_cons.1 hb with rfl | hb
        · simp [hdigit]
        · exact hds b hb
  · rintro ⟨ds, rfl, hds, hc, hw⟩
    cases ds with
    | nil =>
        refine ⟨[c], [], c, rfl, rfl, ?_⟩
        replace hc : digit c = none := hc
        replace hw : w = v := hw
        rw [NumberRest, hc, hw]
        exact ⟨rfl, rfl⟩
    | cons d ds =>
        obtain ⟨n, hn⟩ := Option.isSome_iff_exists.1 (hds d (by simp))
        refine ⟨[d], ds ++ [c], d, rfl, rfl, ?_⟩
        rw [NumberRest, hn]
        exact ⟨ds, rfl, fun b hb => hds b (List.mem_cons_of_mem _ hb), hc,
          by simpa [numberFrom, hn] using hw⟩

theorem scans_readNumberLoop {digit : UInt8 → Option Nat} (base : Nat) (hzero : digit 0 = none)
    {fuel : Nat} (v : Nat) {fd : InFile} (hfuel : fd.text.length < fuel) :
    Scans 0 k numberView (Exec.ofOption (readNumberLoop digit base fuel v fd)) fd.text
      (NumberText digit base v) := by
  induction fuel generalizing v fd with
  | zero => exact absurd hfuel (Nat.not_lt_zero _)
  | succ fuel ih =>
      have hstep : Exec.ofOption (readNumberLoop digit base (fuel + 1) v fd) =
          Exec.ofOption (readChar fd) >>= fun r =>
            (digit r.1).elim (.ok (r.1, v, r.2)) fun d =>
              Exec.ofOption (readNumberLoop digit base fuel (wrap (v * base + d)) r.2) := by
        cases hread : readChar fd with
        | none => simp [readNumberLoop, hread]
        | some r =>
            rcases r with ⟨c, fd'⟩
            cases hdigit : digit c <;> simp [readNumberLoop, hread, hdigit]
      rw [hstep]
      refine ((scans_readChar fd).bind_of_last (M := NumberRest digit base v) ?_ ?_).congr
        fun u r => numberText_iff
      · rintro ⟨c, fd'⟩ hread
        have hlen := length_text_readChar hread
        cases hdigit : digit c with
        | none => simpa [charView, numberView, NumberRest, hdigit] using Scans.ok numberView (c, v, fd')
        | some d => simpa [charView, NumberRest, hdigit] using ih (wrap (v * base + d)) (by omega)
      · -- a zero is no digit, and ends the number
        rintro ⟨c, fd'⟩ u hu hlast
        obtain rfl : c = 0 := charText_last hu hlast
        simp [hzero]

theorem scans_readNumber {digit : UInt8 → Option Nat} (base : Nat) (hzero : digit 0 = none)
    (fd : InFile) :
    Scans 0 k numberView (Exec.ofOption (readNumber digit base fd)) fd.text
      (NumberText digit base 0) :=
  scans_readNumberLoop base hzero 0 (Nat.lt_succ_of_le (length_text_le fd))

/-! ## Bad lines -/

theorem skipEolLoop_ne_ok {α : Type} (fuel : Nat) (c : UInt8) (fd : InFile) (a : α) :
    skipEolLoop fuel c fd ≠ .ok a := by
  induction fuel generalizing c fd with
  | zero => by_cases hc : c = chr '\n' ∨ c = 0 <;> simp [skipEolLoop, hc]
  | succ fuel ih =>
      by_cases hc : c = chr '\n' ∨ c = 0
      · simp [skipEolLoop, hc]
      · cases hread : readChar fd with
        | none => simp [skipEolLoop, hc, hread]
        | some r => simpa [skipEolLoop, hc, hread] using ih r.1 r.2

theorem skipEolLoop_zero {α : Type} (fuel : Nat) (fd : InFile) :
    (skipEolLoop fuel 0 fd : Exec α) = .exited := by
  cases fuel <;> simp [skipEolLoop]

/-- The rest of a bad line is read up to its end: only more characters than there are keep it waiting. -/
theorem skipEolLoop_waits {α : Type} {fuel : Nat} {c : UInt8} {fd : InFile}
    (hfuel : fd.text.length ≤ fuel) (h : (skipEolLoop fuel c fd : Exec α) = .running) :
    Unended 0 k fd.text := by
  induction fuel generalizing c fd with
  | zero =>
      rw [List.eq_nil_of_length_eq_zero (Nat.le_zero.1 hfuel)]
      exact unended_nil
  | succ fuel ih =>
      by_cases hc : c = chr '\n' ∨ c = 0
      · simp [skipEolLoop, hc] at h
      · cases hread : readChar fd with
        | none =>
            rw [readChar_eq_none hread]
            exact unended_nil
        | some r =>
            rcases r with ⟨d, fd'⟩
            have htext := readChar_eq_some hread
            have hrun : (skipEolLoop fuel d fd' : Exec α) = .running := by
              simpa [skipEolLoop, hc, hread] using h
            have hd : d ≠ 0 := by
              rintro rfl
              rw [skipEolLoop_zero] at hrun
              cases hrun
            rw [htext] at hfuel ⊢
            exact (ih (Nat.le_of_succ_le_succ hfuel) hrun).append (u := [d]) (by simpa using hd)

@[simp] theorem skipEol_zero {α : Type} (fd : InFile) : (skipEol 0 fd : Exec α) = .exited :=
  skipEolLoop_zero _ fd

theorem scans_skipEol {ρ α : Type} {view : ρ → α × List UInt8} (c : UInt8) (fd : InFile) :
    Scans 0 k view (skipEol c fd) fd.text .Fail :=
  Scans.fails (skipEolLoop_ne_ok _ c fd) (skipEolLoop_waits (length_text_le fd))

/-! ## Fields -/

/-- One of two characters. -/
def FlagText (yes no : UInt8) : Grammar UInt8 UInt8 := fun u c => u = [c] ∧ (c = yes ∨ c = no)

theorem scans_readFlag (yes no : UInt8) (fd : InFile) :
    Scans 0 k charView (readFlag yes no fd) fd.text (FlagText yes no) := by
  refine ((scans_readChar fd).bind_of_last
    (M := fun c => .Guard (¬ (c ≠ yes ∧ c ≠ no)) (.Done c)) ?_ ?_).congr ?_
  · rintro ⟨c, fd'⟩ _
    exact .guard (scans_skipEol c fd') fun _ => .ok charView (c, fd')
  · -- a zero that is no flag is the end of a bad line
    rintro ⟨c, fd'⟩ u hu hlast
    obtain rfl : c = 0 := charText_last hu hlast
    by_cases hflag : (0 : UInt8) ≠ yes ∧ (0 : UInt8) ≠ no <;> simp [hflag]
  · intro u c
    constructor
    · rintro ⟨_, _, d, rfl, rfl, hflag, rfl, rfl⟩
      exact ⟨rfl, by tauto⟩
    · rintro ⟨rfl, hflag⟩
      exact ⟨[c], [], c, rfl, rfl, by tauto, rfl, rfl⟩

/-- Hexadecimal digits of either case. -/
def hexValue (ds : List UInt8) : Nat := numberFrom hexDigit 16 0 ds

def decValue (ds : List UInt8) : Nat := numberFrom decDigit 10 0 ds

def HexFieldText (sep : UInt8) : Grammar UInt8 Nat :=
  fun u v => ∃ ds, u = ds ++ [sep] ∧ Digits hexDigit ds ∧ v = hexValue ds

def hexFieldView (r : Nat × InFile) : Nat × List UInt8 := (r.1, r.2.text)

theorem scans_readHexField {sep : UInt8} (hsep : hexDigit sep = none) (fd : InFile) :
    Scans 0 k hexFieldView (readHexField sep fd) fd.text (HexFieldText sep) := by
  refine ((scans_readNumber 16 (by decide) fd).bind_of_last
    (M := fun r => .Guard (¬ r.1 ≠ sep) (.Done r.2)) ?_ ?_).congr ?_
  · rintro ⟨c, v, fd'⟩ _
    exact .guard (scans_skipEol c fd') fun _ => .ok hexFieldView (v, fd')
  · rintro ⟨c, v, fd'⟩ u hu hlast
    obtain rfl : c = 0 := numberText_last hu hlast
    by_cases hzero : (0 : UInt8) ≠ sep <;> simp [hzero]
  · intro u v
    constructor
    · rintro ⟨_, _, ⟨c, w⟩, rfl, ⟨ds, rfl, hds, _, hw⟩, hc, rfl, rfl⟩
      obtain rfl : c = sep := not_not.1 hc
      exact ⟨ds, by simp, hds, hw⟩
    · rintro ⟨ds, rfl, hds, rfl⟩
      exact ⟨ds ++ [sep], [], (sep, hexValue ds), by simp, ⟨ds, rfl, hds, hsep, rfl⟩, not_not.2 rfl,
        rfl, rfl⟩

/-- Behind a character that was read: spaces, if it is one, and the character behind them. -/
def SpacesText (c : UInt8) : Grammar UInt8 UInt8 :=
  fun u d => ∃ n, c :: u = List.replicate n (chr ' ') ++ [d] ∧ d ≠ chr ' '

theorem skipSpaces_of_ne {fuel : Nat} {c : UInt8} (hc : c ≠ chr ' ') (fd : InFile) :
    skipSpaces fuel c fd = some (c, fd) := by
  cases fuel <;> simp [skipSpaces, hc]

theorem scans_noSpaces {c : UInt8} (hc : c ≠ chr ' ') (fd : InFile) :
    Scans 0 k charView (Exec.ofOption (some (c, fd))) fd.text (SpacesText c) := by
  refine (Scans.ok charView (c, fd)).congr fun u d => ?_
  constructor
  · rintro ⟨rfl, rfl⟩
    exact ⟨0, rfl, hc⟩
  · rintro ⟨n, hsplit, hd⟩
    cases n with
    | zero =>
        obtain ⟨rfl, rfl⟩ : c = d ∧ u = [] := by simpa using hsplit
        exact ⟨rfl, rfl⟩
    | succ n =>
        rw [List.replicate_succ, List.cons_append, List.cons.injEq] at hsplit
        exact absurd hsplit.1 hc

/-- Spaces are not zeros, so the zero is the character behind them. -/
theorem spacesText_last {c d : UInt8} {u : List UInt8} (h : SpacesText c u d)
    (hlast : u.getLast? = some 0) : d = 0 := by
  rcases h with ⟨n, hsplit, _⟩
  rcases List.getLast?_eq_some_iff.1 hlast with ⟨front, rfl⟩
  replace hsplit : (c :: front) ++ [0] = List.replicate n (chr ' ') ++ [d] := hsplit
  have hend : [(0 : UInt8)] = [d] := (List.append_inj' hsplit rfl).2
  simpa using hend.symm

theorem scans_skipSpaces {fuel : Nat} {c : UInt8} {fd : InFile} (hfuel : fd.text.length ≤ fuel) :
    Scans 0 k charView (Exec.ofOption (skipSpaces fuel c fd)) fd.text (SpacesText c) := by
  induction fuel generalizing c fd with
  | zero =>
      -- no text is left, and behind a space none is derived from it
      have hnil : fd.text = [] := List.eq_nil_of_length_eq_zero (Nat.le_zero.1 hfuel)
      by_cases hc : c = chr ' '
      · refine ⟨fun hr => ?_, fun {u rest d} htext hu => ?_, fun _ => by rw [hnil]; exact unended_nil⟩
        · simp [skipSpaces, hc] at hr
        · obtain ⟨rfl, rfl⟩ : u = [] ∧ rest = [] := by simpa [hnil] using htext.symm
          rcases hu with ⟨n, hsplit, hd⟩
          have hlen := congrArg List.length hsplit
          obtain rfl : n = 0 := by simpa using hlen
          obtain rfl : c = d := by simpa using hsplit
          exact absurd hc hd
      · rw [skipSpaces_of_ne hc]
        exact scans_noSpaces hc fd
  | succ fuel ih =>
      by_cases hc : c = chr ' '
      · have hstep : Exec.ofOption (skipSpaces (fuel + 1) c fd) =
            Exec.ofOption (readChar fd) >>= fun r => Exec.ofOption (skipSpaces fuel r.1 r.2) := by
          cases hread : readChar fd <;> simp [skipSpaces, hc, hread]
        rw [hstep]
        refine ((scans_readChar fd).bind_of_last (M := SpacesText) ?_ ?_).congr ?_
        · rintro ⟨d, fd'⟩ hread
          have hlen := length_text_readChar hread
          exact ih (show fd'.text.length ≤ fuel by omega)
        · rintro ⟨d, fd'⟩ u hu hlast
          obtain rfl : d = 0 := charText_last hu hlast
          have hzero : (0 : UInt8) ≠ chr ' ' := by decide
          simp [skipSpaces_of_ne hzero]
        · intro u d
          constructor
          · rintro ⟨_, v, b, rfl, rfl, n, hsplit, hd⟩
            exact ⟨n + 1, by simp [hc, List.replicate_succ, ← hsplit], hd⟩
          · rintro ⟨n, hsplit, hd⟩
            cases n with
            | zero =>
                obtain ⟨rfl, _⟩ : c = d ∧ u = [] := by simpa using hsplit
                exact absurd hc hd
            | succ n =>
                rw [List.replicate_succ, List.cons_append, List.cons.injEq] at hsplit
                obtain ⟨b, v, rfl⟩ := List.exists_cons_of_ne_nil (l := u) (by simp [hsplit.2])
                exact ⟨[b], v, b, rfl, rfl, n, hsplit.2, hd⟩
      · rw [skipSpaces_of_ne hc]
        exact scans_noSpaces hc fd

/-! ## Names -/

def nameView (r : List UInt8 × UInt8 × InFile) : (List UInt8 × UInt8) × List UInt8 :=
  ((r.1, r.2.1), r.2.2.text)

/-- Behind the first character of a name that goes on from `name`: the rest of its line.  The whole
name leaves room for a terminator. -/
def NameText (name : List UInt8) (c : UInt8) : Grammar UInt8 (List UInt8 × UInt8) :=
  fun u r => ∃ more, u = more ++ [chr '\n'] ∧ chr '\n' ∉ more ∧
    name.length + more.length + 1 < fileNameSize ∧ r = (name ++ c :: more, chr '\n')

theorem scans_readName {fuel : Nat} {name : List UInt8} {c : UInt8} {fd : InFile}
    (hfuel : fd.text.length < fuel) (hroom : name.length < fileNameSize) :
    Scans 0 (fileNameSize - (name.length + 1)) nameView (readName fuel name c fd) fd.text
      (NameText name c) := by
  induction fuel generalizing name c fd with
  | zero => exact absurd hfuel (Nat.not_lt_zero _)
  | succ fuel ih =>
      have hlen : (name ++ [c]).length = name.length + 1 := by simp
      have hscan : Scans 0 (fileNameSize - (name.length + 1)) nameView
          (readName (fuel + 1) name c fd) fd.text
          (.Guard (¬ (name ++ [c]).length = fileNameSize) (.Seq CharText fun d =>
            .Choice (d ≠ chr '\n') (NameText (name ++ [c]) d) (.Done (name ++ [c], d)))) := by
        refine .guard (scans_skipEol c fd) fun hne => ?_
        refine (scans_readChar fd).bind (j := fileNameSize - (name.length + 1 + 1)) ?_ ?_
        · rintro ⟨d, fd'⟩ hread
          have hless := length_text_readChar hread
          refine .ite (fun _ => ?_) fun _ => .ok nameView (name ++ [c], d, fd')
          rw [← hlen]
          exact ih (by omega) (by omega)
        · -- a zero is stored like any other character, and counts against the room that is left
          rintro ⟨d, fd'⟩ u _ hu _ hrest
          obtain rfl : u = [d] := hu
          have hadd := hrest.append_add (u := [d])
          have hroom' : [d].length + (fileNameSize - (name.length + 1 + 1)) =
              fileNameSize - (name.length + 1) := by
            rw [List.length_singleton]
            omega
          rwa [hroom'] at hadd
      refine hscan.congr ?_
      rintro u ⟨whole, e⟩
      constructor
      · rintro ⟨hne, _, v, d, rfl, rfl, ⟨hd, more, rfl, hmore, hfits, hr⟩ | ⟨hd, rfl, hr⟩⟩
        · refine ⟨d :: more, rfl, ?_, ?_, by simpa using hr⟩
          · rintro hmem
            rcases List.mem_cons.1 hmem with rfl | hmem
            · exact hd rfl
            · exact hmore hmem
          · rw [List.length_cons]
            omega
        · obtain rfl : d = chr '\n' := not_not.1 hd
          exact ⟨[], rfl, by simp, by simp only [List.length_nil]; omega, hr⟩
      · rintro ⟨more, rfl, hmore, hfits, hr⟩
        refine ⟨by omega, ?_⟩
        cases more with
        | nil => exact ⟨[chr '\n'], [], chr '\n', rfl, rfl, .inr ⟨not_not.2 rfl, rfl, hr⟩⟩
        | cons d more =>
            obtain ⟨hd, hmore'⟩ : chr '\n' ≠ d ∧ chr '\n' ∉ more := by simpa using hmore
            rw [List.length_cons] at hfits
            exact ⟨[d], more ++ [chr '\n'], d, rfl, rfl,
              .inl ⟨hd.symm, more, rfl, hmore', by omega, by simpa using hr⟩⟩

/-- The name of a line, which may have none, and the end of the line. -/
def NameFieldText (c : UInt8) : Grammar UInt8 (List UInt8 × UInt8) :=
  .Choice (c = chr '/' ∨ c = chr '[') (NameText [] c) (.Done ([], c))

theorem scans_readNameField (c : UInt8) (fd : InFile) :
    Scans 0 (fileNameSize - 1) nameView (readNameField c fd) fd.text (NameFieldText c) := by
  refine .ite (fun _ => ?_) fun _ => .ok nameView ([], c, fd)
  have hroom : ([] : List UInt8).length < fileNameSize := by decide
  exact scans_readName (Nat.lt_succ_of_le (length_text_le fd)) hroom

/-! ## One line -/

def mapsView (r : Int × Area × InFile) : (Int × Area) × List UInt8 := ((r.1, r.2.1), r.2.2.text)

/-- From the inode number on. -/
def LineEndText (fill : Nat → List UInt8 → Area) : Grammar UInt8 (Int × Area) :=
  .Seq (NumberText decDigit 10 0) fun inode =>
    .Seq (SpacesText inode.1) fun c =>
      .Seq (NameFieldText c) fun name =>
        .Guard (¬ name.2 ≠ chr '\n') (.Done (1, fill inode.2 name.1))

/-- The fields of a line as `readMapsLine` goes through them. -/
def LineText (area : Area) : Grammar UInt8 (Int × Area) :=
  .Seq (NumberText hexDigit 16 0) fun start =>
    .Choice (start.1 ≠ chr '-')
      (.Choice (start.1 = 0 ∧ start.2 = 0) (.Done (0, area)) .Fail)
      (.Seq (NumberText hexDigit 16 0) fun stop =>
        .Guard (¬ stop.1 ≠ chr ' ') (.Guard (¬ stop.2 < start.2)
          (.Seq (FlagText (chr 'r') (chr '-')) fun rflag =>
          .Seq (FlagText (chr 'w') (chr '-')) fun wflag =>
          .Seq (FlagText (chr 'x') (chr '-')) fun xflag =>
          .Seq (FlagText (chr 's') (chr 'p')) fun sflag =>
          .Seq CharText fun c => .Guard (¬ c ≠ chr ' ')
          (.Seq (HexFieldText (chr ' ')) fun offset =>
          .Seq (HexFieldText (chr ':')) fun devmajor =>
          .Seq (HexFieldText (chr ' ')) fun devminor =>
          LineEndText fun inodenum name => fillArea area start.2 stop.2 rflag wflag xflag sflag offset
            devmajor devminor inodenum name))))

theorem flagText_last {yes no : UInt8} (hyes : yes ≠ 0) (hno : no ≠ 0) {u : List UInt8} {c : UInt8}
    (h : FlagText yes no u c) : u.getLast? ≠ some 0 := by
  rcases h with ⟨rfl, rfl | rfl⟩
  · simpa using hyes
  · simpa using hno

theorem hexFieldText_last {sep : UInt8} (hsep : sep ≠ 0) {u : List UInt8} {v : Nat}
    (h : HexFieldText sep u v) : u.getLast? ≠ some 0 := by
  rcases h with ⟨ds, rfl, _⟩
  simpa using hsep

theorem nameFieldText_last {c : UInt8} {u : List UInt8} {r : List UInt8 × UInt8}
    (h : NameFieldText c u r) : u.getLast? ≠ some 0 := by
  rcases h with ⟨_, more, rfl, _⟩ | ⟨_, rfl, _⟩
  · rw [List.getLast?_concat]
    decide
  · simp

/-- What `readMapsLine` does with the name. -/
def finishLine (fill : List UInt8 → Area) (r : List UInt8 × UInt8 × InFile) :
    Exec (Int × Area × InFile) :=
  if r.2.1 ≠ chr '\n' then skipEol r.2.1 r.2.2 else .ok (1, fill r.1, r.2.2)

/-- Behind a zero a line does not go on. -/
theorem finishLine_zero (fd : InFile) (fill : List UInt8 → Area) :
    (readNameField 0 fd >>= finishLine fill) = .exited := by
  have hname : ¬ ((0 : UInt8) = chr '/' ∨ (0 : UInt8) = chr '[') := by decide
  have hline : (0 : UInt8) ≠ chr '\n' := by decide
  simp [readNameField, hname, finishLine, hline]

theorem scans_lineEnd (fd : InFile) (fill : Nat → List UInt8 → Area) :
    Scans 0 (fileNameSize - 1) mapsView
      (Exec.ofOption (readDec fd) >>= fun r =>
        Exec.ofOption (skipSpaces r.2.2.replies.length r.1 r.2.2) >>= fun s =>
          readNameField s.1 s.2 >>= finishLine (fill r.2.1)) fd.text (LineEndText fill) := by
  have hspace : (0 : UInt8) ≠ chr ' ' := by decide
  refine (scans_readNumber 10 (by decide) fd).bind_of_last ?_ ?_
  · rintro ⟨c, inodenum, fd₁⟩ _
    refine (scans_skipSpaces (length_text_le fd₁)).bind_of_last ?_ ?_
    · rintro ⟨d, fd₂⟩ _
      refine (scans_readNameField d fd₂).bind_of_ne ?_ nameFieldText_last
      rintro ⟨name, e, fd₃⟩ _
      exact .guard (scans_skipEol e fd₃) fun _ => .ok mapsView (1, fill inodenum name, fd₃)
    · rintro ⟨d, fd₂⟩ u hu hlast
      obtain rfl : d = 0 := spacesText_last hu hlast
      simp [finishLine_zero]
  · rintro ⟨c, inodenum, fd₁⟩ u hu hlast
    obtain rfl : c = 0 := numberText_last hu hlast
    simp [skipSpaces_of_ne hspace, finishLine_zero]

/-- `readMapsLine` returns exactly on the fronts that `LineText` derives, with their values. -/
theorem scans_readMapsLine (fd : InFile) (area : Area) :
    Scans 0 (fileNameSize - 1) mapsView (readMapsLine fd area) fd.text (LineText area) := by
  have hspace : (0 : UInt8) ≠ chr ' ' := by decide
  have hdash : (0 : UInt8) ≠ chr '-' := by decide
  refine (scans_readNumber 16 (by decide) fd).bind_of_last ?_ ?_
  · rintro ⟨c, startaddr, f₁⟩ _
    refine .ite (fun _ => ?_) fun _ => ?_
    · exact .ite (fun _ => .ok mapsView (0, area, f₁)) fun _ => scans_skipEol c f₁
    refine (scans_readNumber 16 (by decide) f₁).bind_of_last ?_ ?_
    · rintro ⟨c, endaddr, f₂⟩ _
      refine .guard (scans_skipEol c f₂) fun _ => .guard (scans_skipEol c f₂) fun _ => ?_
      refine (scans_readFlag _ _ f₂).bind_of_ne ?_ (flagText_last (by decide) (by decide))
      rintro ⟨rflag, f₃⟩ _
      refine (scans_readFlag _ _ f₃).bind_of_ne ?_ (flagText_last (by decide) (by decide))
      rintro ⟨wflag, f₄⟩ _
      refine (scans_readFlag _ _ f₄).bind_of_ne ?_ (flagText_last (by decide) (by decide))
      rintro ⟨xflag, f₅⟩ _
      refine (scans_readFlag _ _ f₅).bind_of_ne ?_ (flagText_last (by decide) (by decide))
      rintro ⟨sflag, f₆⟩ _
      refine (scans_readChar f₆).bind_of_last ?_ ?_
      · rintro ⟨c, f₇⟩ _
        refine .guard (scans_skipEol c f₇) fun _ => ?_
        refine (scans_readHexField (by decide) f₇).bind_of_ne ?_ (hexFieldText_last (by decide))
        rintro ⟨offset, f₈⟩ _
        refine (scans_readHexField (by decide) f₈).bind_of_ne ?_ (hexFieldText_last (by decide))
        rintro ⟨devmajor, f₉⟩ _
        refine (scans_readHexField (by decide) f₉).bind_of_ne ?_ (hexFieldText_last (by decide))
        rintro ⟨devminor, f₁₀⟩ _
        exact scans_lineEnd f₁₀ fun inodenum name => fillArea area startaddr endaddr rflag wflag xflag
          sflag offset devmajor devminor inodenum name
      · rintro ⟨c, f₇⟩ u hu hlast
        obtain rfl : c = 0 := charText_last hu hlast
        simp [hspace]
    · rintro ⟨c, endaddr, f₂⟩ u hu hlast
      obtain rfl : c = 0 := numberText_last hu hlast
      simp [hspace]
  · -- behind a zero it is the end of the file, or of a bad line
    rintro ⟨c, startaddr, f₁⟩ u hu hlast
    obtain rfl : c = 0 := numberText_last hu hlast
    by_cases hstart : startaddr = 0 <;> simp [hdash, hstart]

/-! ## The lines and the end -/

/-- A line that is accepted: its fields as they are written. -/
structure MapsLine where
  startaddr : List UInt8
  endaddr : List UInt8
  rflag : UInt8
  wflag : UInt8
  xflag : UInt8
  sflag : UInt8
  offset : List UInt8
  devmajor : List UInt8
  devminor : List UInt8
  inodenum : List UInt8
  pad : Nat
  name : List UInt8
  startaddr_digits : Digits hexDigit startaddr
  endaddr_digits : Digits hexDigit endaddr
  offset_digits : Digits hexDigit offset
  devmajor_digits : Digits hexDigit devmajor
  devminor_digits : Digits hexDigit devminor
  inodenum_digits : Digits decDigit inodenum
  ordered : hexValue startaddr ≤ hexValue endaddr
  rflag_eq : rflag = chr 'r' ∨ rflag = chr '-'
  wflag_eq : wflag = chr 'w' ∨ wflag = chr '-'
  xflag_eq : xflag = chr 'x' ∨ xflag = chr '-'
  sflag_eq : sflag = chr 's' ∨ sflag = chr 'p'
  name_head : name = [] ∨ name.head? = some (chr '/') ∨ name.head? = some (chr '[')
  name_length : name.length < fileNameSize
  name_newline : chr '\n' ∉ name

namespace MapsLine

def bytes (l : MapsLine) : List UInt8 :=
  l.startaddr ++ chr '-' :: (l.endaddr ++ chr ' ' :: l.rflag :: l.wflag :: l.xflag :: l.sflag ::
    chr ' ' :: (l.offset ++ chr ' ' :: (l.devmajor ++ chr ':' :: (l.devminor ++ chr ' ' ::
    (l.inodenum ++ (List.replicate l.pad (chr ' ') ++ (l.name ++ [chr '\n'])))))))

/-- The area that the line fills. -/
def area (l : MapsLine) (before : Area) : Area :=
  fillArea before (hexValue l.startaddr) (hexValue l.endaddr) l.rflag l.wflag l.xflag l.sflag
    (hexValue l.offset) (hexValue l.devmajor) (hexValue l.devminor) (decValue l.inodenum) l.name

end MapsLine

/-- What is taken for the end of the file: digits of a number that is zero, and a zero. -/
def EndMark (u : List UInt8) : Prop := ∃ ds, u = ds ++ [0] ∧ Digits hexDigit ds ∧ hexValue ds = 0

theorem nameFieldText_iff {d : UInt8} {v name : List UInt8} :
    NameFieldText d v (name, chr '\n') ↔
      d :: v = name ++ [chr '\n'] ∧
        (name = [] ∨ name.head? = some (chr '/') ∨ name.head? = some (chr '[')) ∧
        name.length < fileNameSize ∧ chr '\n' ∉ name := by
  constructor
  · rintro (⟨hd, more, rfl, hmore, hfits, hr⟩ | ⟨_, rfl, hr⟩)
    · obtain rfl : name = d :: more := congrArg Prod.fst hr
      refine ⟨rfl, .inr (by simpa using hd), ?_, ?_⟩
      · rw [List.length_nil, Nat.zero_add] at hfits
        exact hfits
      · rintro hmem
        rcases List.mem_cons.1 hmem with rfl | hmem
        · exact absurd hd (by decide)
        · exact hmore hmem
    · cases hr
      exact ⟨rfl, .inl rfl, by decide, List.not_mem_nil⟩
  · rintro ⟨hsplit, hhead, hlength, hline⟩
    cases name with
    | nil =>
        obtain ⟨rfl, rfl⟩ : d = chr '\n' ∧ v = [] := by simpa using hsplit
        exact .inr ⟨by decide, rfl, rfl⟩
    | cons b more =>
        obtain ⟨rfl, rfl⟩ : d = b ∧ v = more ++ [chr '\n'] := by simpa using hsplit
        have hd : d = chr '/' ∨ d = chr '[' := by simpa using hhead
        refine .inl ⟨hd, more, rfl, fun hmem => hline (List.mem_cons_of_mem _ hmem), ?_, rfl⟩
        rw [List.length_nil, Nat.zero_add]
        exact hlength

/-- From the inode number on, behind everything else. -/
theorem lineEndText_iff {fill : Nat → List UInt8 → Area} {u : List UInt8} {r : Int × Area} :
    LineEndText fill u r ↔ ∃ inodenum pad name, Digits decDigit inodenum ∧
      (name = [] ∨ name.head? = some (chr '/') ∨ name.head? = some (chr '[')) ∧
      name.length < fileNameSize ∧ chr '\n' ∉ name ∧
      u = inodenum ++ (List.replicate pad (chr ' ') ++ (name ++ [chr '\n'])) ∧
      r = (1, fill (decValue inodenum) name) := by
  constructor
  · rintro ⟨_, _, ⟨c, w⟩, rfl, ⟨ds, rfl, hds, _, rfl⟩, v₁, _, d, rfl, ⟨n, hsplit, _⟩, v₂, _, ⟨name, e⟩,
      rfl, hname, he, rfl, rfl⟩
    obtain rfl : e = chr '\n' := not_not.1 he
    rcases nameFieldText_iff.1 hname with ⟨hend, hhead, hlength, hline⟩
    refine ⟨ds, n, name, hds, hhead, hlength, hline, ?_, rfl⟩
    replace hsplit : c :: v₁ = List.replicate n (chr ' ') ++ [d] := hsplit
    calc (ds ++ [c]) ++ (v₁ ++ (v₂ ++ []))
        = ds ++ ((c :: v₁) ++ v₂) := by simp
      _ = ds ++ (List.replicate n (chr ' ') ++ (d :: v₂)) := by rw [hsplit]; simp
      _ = ds ++ (List.replicate n (chr ' ') ++ (name ++ [chr '\n'])) := by rw [hend]
  · rintro ⟨inodenum, pad, name, hds, hhead, hlength, hline, rfl, rfl⟩
    -- the character behind the spaces is the first one of the name, or the end of the line
    obtain ⟨d, v₂, hend⟩ := List.exists_cons_of_ne_nil (l := name ++ [chr '\n']) (by simp)
    have hd : d = chr '\n' ∨ d = chr '/' ∨ d = chr '[' := by
      cases name with
      | nil => exact .inl (by simpa using (congrArg List.head? hend).symm)
      | cons b more =>
          obtain rfl : b = d := by simpa using congrArg List.head? hend
          exact .inr (by simpa using hhead)
    have hspace : d ≠ chr ' ' := by rcases hd with rfl | rfl | rfl <;> decide
    obtain ⟨c, v₁, hsplit⟩ := List.exists_cons_of_ne_nil
      (l := List.replicate pad (chr ' ') ++ [d]) (by simp)
    have hc : decDigit c = none := by
      cases pad with
      | zero =>
          obtain rfl : d = c := by simpa using congrArg List.head? hsplit
          rcases hd with rfl | rfl | rfl <;> decide
      | succ pad =>
          obtain rfl : chr ' ' = c := by simpa [List.replicate_succ] using congrArg List.head? hsplit
          decide
    have hname := nameFieldText_iff.2 ⟨hend.symm, hhead, hlength, hline⟩
    refine ⟨inodenum ++ [c], v₁ ++ v₂, (c, decValue inodenum), ?_, ⟨inodenum, rfl, hds, hc, rfl⟩,
      v₁, v₂, d, rfl, ⟨pad, hsplit.symm, hspace⟩, v₂, [], (name, chr '\n'), by simp, hname,
      not_not.2 rfl, rfl, rfl⟩
    calc inodenum ++ (List.replicate pad (chr ' ') ++ (name ++ [chr '\n']))
        = inodenum ++ ((List.replicate pad (chr ' ') ++ [d]) ++ v₂) := by rw [hend]; simp
      _ = (inodenum ++ [c]) ++ (v₁ ++ v₂) := by rw [hsplit]; simp

theorem MapsLine.lineEndText (l : MapsLine) (fill : Nat → List UInt8 → Area) :
    LineEndText fill
      (l.inodenum ++ (List.replicate l.pad (chr ' ') ++ (l.name ++ [chr '\n'])))
      (1, fill (decValue l.inodenum) l.name) :=
  lineEndText_iff.2 ⟨l.inodenum, l.pad, l.name, l.inodenum_digits, l.name_head, l.name_length,
    l.name_newline, rfl, rfl⟩

/-- A front that is taken is a line, or the end of the file. -/
theorem lineText_iff {area : Area} {u : List UInt8} {r : Int × Area} :
    LineText area u r ↔
      (∃ l : MapsLine, u = l.bytes ∧ r = (1, l.area area)) ∨ (EndMark u ∧ r = (0, area)) := by
  have hdash : hexDigit (chr '-') = none := by decide
  have hspace : hexDigit (chr ' ') = none := by decide
  have hnul : hexDigit 0 = none := by decide
  have hne : (0 : UInt8) ≠ chr '-' := by decide
  constructor
  · -- the fields are read off the derivation one by one
    rintro ⟨_, _, ⟨c, startaddr⟩, rfl, ⟨start, rfl, hstart, _, rfl⟩,
      ⟨_, ⟨⟨rfl, hzero⟩, rfl, rfl⟩ | ⟨_, hfail⟩⟩ | ⟨hc, hrest⟩⟩
    · exact .inr ⟨⟨start, by simp, hstart, hzero⟩, rfl⟩
    · exact hfail.elim
    · obtain rfl : c = chr '-' := not_not.1 hc
      rcases hrest with ⟨_, _, ⟨c, endaddr⟩, rfl, ⟨stop, rfl, hstop, _, rfl⟩, hc, hordered, hrest⟩
      obtain rfl : c = chr ' ' := not_not.1 hc
      rcases hrest with ⟨_, _, rflag, rfl, ⟨rfl, hrflag⟩, _, _, wflag, rfl, ⟨rfl, hwflag⟩, _, _, xflag,
        rfl, ⟨rfl, hxflag⟩, _, _, sflag, rfl, ⟨rfl, hsflag⟩, _, _, c, rfl, rfl, hc, hrest⟩
      obtain rfl : c = chr ' ' := not_not.1 hc
      rcases hrest with ⟨_, _, _, rfl, ⟨offset, rfl, hoffset, rfl⟩, _, _, _, rfl,
        ⟨devmajor, rfl, hdevmajor, rfl⟩, _, _, _, rfl, ⟨devminor, rfl, hdevminor, rfl⟩, hrest⟩
      rcases lineEndText_iff.1 hrest with ⟨inodenum, pad, name, hinodenum, hhead, hlength, hline,
        rfl, rfl⟩
      exact .inl ⟨{
        startaddr := start, endaddr := stop, rflag := rflag, wflag := wflag, xflag := xflag
        sflag := sflag, offset := offset, devmajor := devmajor, devminor := devminor
        inodenum := inodenum, pad := pad, name := name
        startaddr_digits := hstart, endaddr_digits := hstop, offset_digits := hoffset
        devmajor_digits := hdevmajor, devminor_digits := hdevminor, inodenum_digits := hinodenum
        ordered := Nat.not_lt.1 hordered, rflag_eq := hrflag, wflag_eq := hwflag
        xflag_eq := hxflag, sflag_eq := hsflag, name_head := hhead, name_length := hlength
        name_newline := hline }, by simp [MapsLine.bytes], rfl⟩
  · rintro (⟨l, rfl, rfl⟩ | ⟨⟨ds, rfl, hds, hzero⟩, rfl⟩)
    · refine ⟨l.startaddr ++ [chr '-'], _, (chr '-', hexValue l.startaddr), ?_,
        ⟨l.startaddr, rfl, l.startaddr_digits, hdash, rfl⟩, .inr ⟨not_not.2 rfl,
        l.endaddr ++ [chr ' '], _, (chr ' ', hexValue l.endaddr), rfl,
        ⟨l.endaddr, rfl, l.endaddr_digits, hspace, rfl⟩, not_not.2 rfl, Nat.not_lt.2 l.ordered,
        [l.rflag], _, l.rflag, rfl, ⟨rfl, l.rflag_eq⟩, [l.wflag], _, l.wflag, rfl, ⟨rfl, l.wflag_eq⟩,
        [l.xflag], _, l.xflag, rfl, ⟨rfl, l.xflag_eq⟩, [l.sflag], _, l.sflag, rfl, ⟨rfl, l.sflag_eq⟩,
        [chr ' '], _, chr ' ', rfl, rfl, not_not.2 rfl,
        l.offset ++ [chr ' '], _, _, rfl, ⟨l.offset, rfl, l.offset_digits, rfl⟩,
        l.devmajor ++ [chr ':'], _, _, rfl, ⟨l.devmajor, rfl, l.devmajor_digits, rfl⟩,
        l.devminor ++ [chr ' '], _, _, rfl, ⟨l.devminor, rfl, l.devminor_digits, rfl⟩,
        l.lineEndText _⟩⟩
      simp [MapsLine.bytes]
    · exact ⟨ds ++ [0], [], (0, hexValue ds), by simp, ⟨ds, rfl, hds, hnul, rfl⟩,
        .inl ⟨hne, .inl ⟨⟨rfl, hzero⟩, rfl, rfl⟩⟩⟩

namespace MapsLine

theorem bytes_last (l : MapsLine) : l.bytes.getLast? ≠ some 0 := by
  have hsplit : ∃ front, l.bytes = front ++ [chr '\n'] := by
    refine ⟨l.startaddr ++ chr '-' :: (l.endaddr ++ chr ' ' :: l.rflag :: l.wflag :: l.xflag ::
      l.sflag :: chr ' ' :: (l.offset ++ chr ' ' :: (l.devmajor ++ chr ':' :: (l.devminor ++
      chr ' ' :: (l.inodenum ++ (List.replicate l.pad (chr ' ') ++ l.name)))))), ?_⟩
    simp [bytes]
  rcases hsplit with ⟨front, hfront⟩
  rw [hfront, List.getLast?_concat]
  decide

theorem bytes_ne_nil (l : MapsLine) : 0 < l.bytes.length := by
  simp [bytes]

end MapsLine

theorem numberFrom_lt (digit : UInt8 → Option Nat) (base : Nat) (ds : List UInt8) :
    numberFrom digit base 0 ds < wordSize := by
  rcases List.eq_nil_or_concat' ds with rfl | ⟨ds, c, rfl⟩
  · exact show 0 < wordSize by decide
  · rw [numberFrom, List.foldl_concat]
    exact Nat.mod_lt _ (by decide)

/-- What a line says fits the fields of an area, whatever the digits. -/
theorem MapsLine.area_fits (l : MapsLine) {before : Area} (h : before.properties < wordSize) :
    (l.area before).Fits where
  addr := numberFrom_lt _ _ _
  endAddr := numberFrom_lt _ _ _
  size := lt_of_le_of_lt (Nat.sub_le _ _) (numberFrom_lt hexDigit 16 l.endaddr)
  offset := numberFrom_lt _ _ _
  prot := by
    simp only [area, fillArea]
    split_ifs <;> decide
  flags := by
    simp only [area, fillArea]
    split_ifs <;> decide
  devmajor := numberFrom_lt _ _ _
  devminor := numberFrom_lt _ _ _
  inodenum := numberFrom_lt _ _ _
  properties := h
  name_length := lt_of_le_of_lt (List.takeWhile_prefix _).length_le l.name_length
  name_nul := by
    intro hmem
    have hne := List.mem_takeWhile_imp hmem
    simp at hne

/-! ## The whole file -/

/-- Lines, and then what is taken for the end; behind the last byte comes a zero. -/
def MapsFile (content : List UInt8) (lines : List MapsLine) : Prop :=
  ∃ mark rest, content ++ [0] = lines.flatMap MapsLine.bytes ++ (mark ++ rest) ∧ EndMark mark

theorem mapsFile_cons {content : List UInt8} {l : MapsLine} {lines : List MapsLine} :
    MapsFile (l.bytes ++ content) (l :: lines) ↔ MapsFile content lines := by
  simp [MapsFile]

/-- The first line is a front of the file. -/
theorem MapsFile.first {content : List UInt8} {l : MapsLine} {lines : List MapsLine}
    (h : MapsFile content (l :: lines)) :
    ∃ content', content = l.bytes ++ content' ∧ MapsFile content' lines := by
  rcases h with ⟨mark, rest, hsplit, hmark⟩
  rw [List.flatMap_cons, List.append_assoc] at hsplit
  rcases front_of_getLast? (n := 1) hsplit l.bytes_last with ⟨content', rfl, htail⟩
  exact ⟨content', rfl, mark, rest, htail.symm, hmark⟩

/-- Of the zeros that arrive behind the file, an end mark takes one at most. -/
theorem EndMark.front {content mark t : List UInt8} {n : Nat} (hmark : EndMark mark)
    (h : content ++ List.replicate n 0 = mark ++ t) : ∃ rest, content ++ [0] = mark ++ rest := by
  rcases hmark with ⟨ds, rfl, hds, _⟩
  have hlast : ds.getLast? ≠ some 0 := by
    rintro hzero
    have hdigit := hds 0 (List.mem_of_getLast? hzero)
    exact absurd hdigit (by decide)
  rw [List.append_assoc] at h
  rcases front_of_getLast? h hlast with ⟨content', rfl, htail⟩
  cases content' with
  | nil => exact ⟨[], by simp⟩
  | cons b content' =>
      obtain rfl : 0 = b := by simpa using congrArg List.head? htail
      exact ⟨content' ++ [0], by simp⟩

/-- The loop of the callers goes through a file of lines. -/
theorem readMaps_of_mapsFile {content : List UInt8} {lines : List MapsLine}
    (h : MapsFile content lines) {fd : InFile} {n : Nat}
    (htext : fd.text = content ++ List.replicate (n + 1) 0) (area : Area) {fuel : Nat}
    (hfuel : content.length < fuel) :
    readMaps fuel area fd = .ok (lines.map fun l => l.area area) := by
  induction lines generalizing content fd area fuel with
  | nil =>
      cases fuel with
      | zero => exact absurd hfuel (Nat.not_lt_zero _)
      | succ fuel =>
          rcases h with ⟨mark, rest, hsplit, hmark⟩
          have hfront : fd.text = mark ++ (rest ++ List.replicate n 0) := by
            calc fd.text = (content ++ [0]) ++ List.replicate n 0 := by
                  rw [htext, List.replicate_succ]
                  simp
              _ = mark ++ (rest ++ List.replicate n 0) := by
                  rw [hsplit]
                  simp
          rcases (scans_readMapsLine fd area).complete hfront (lineText_iff.2 (.inr ⟨hmark, rfl⟩)) with
            ⟨⟨rc, a, fd'⟩, hread, hview⟩
          obtain ⟨rfl, rfl⟩ : rc = 0 ∧ a = area := by
            simpa [mapsView] using congrArg Prod.fst hview
          simp [readMaps, hread]
  | cons l lines ih =>
      cases fuel with
      | zero => exact absurd hfuel (Nat.not_lt_zero _)
      | succ fuel =>
          rcases h.first with ⟨content', rfl, htail⟩
          rw [List.append_assoc] at htext
          rcases (scans_readMapsLine fd area).complete htext (lineText_iff.2 (.inl ⟨l, rfl, rfl⟩)) with
            ⟨⟨rc, a, fd'⟩, hread, hview⟩
          obtain ⟨rfl, rfl⟩ : rc = 1 ∧ a = l.area area := by
            simpa [mapsView] using congrArg Prod.fst hview
          have hrest : fd'.text = content' ++ List.replicate (n + 1) 0 := congrArg Prod.snd hview
          have hshort : content'.length < fuel := by
            have hpos := l.bytes_ne_nil
            rw [List.length_append] at hfuel
            omega
          -- of the area before it, a line leaves `properties` only
          have hmore := ih htail hrest (l.area area) hshort
          simp only [readMaps, hread, Exec.ok_bind, hmore]
          rfl

/-- The loop of the callers comes to the end of a file of lines, or the process leaves. -/
theorem readMaps_outcome {content : List UInt8} {fd : InFile} {n : Nat} (hn : fileNameSize ≤ n)
    (htext : fd.text = content ++ List.replicate n 0) (area : Area) {fuel : Nat}
    (hfuel : content.length < fuel) :
    readMaps fuel area fd = .exited ∨
      ∃ lines, MapsFile content lines ∧
        readMaps fuel area fd = .ok (lines.map fun l => l.area area) := by
  induction fuel generalizing content fd area with
  | zero => exact absurd hfuel (Nat.not_lt_zero _)
  | succ fuel ih =>
      have hscan := scans_readMapsLine fd area
      cases hread : readMapsLine fd area with
      | running =>
          -- there are more zeros behind the file than a line that goes on could take
          have hpos : 0 < fileNameSize := by decide
          have hle := hscan.waits hread content n htext
          omega
      | exited => exact .inl (by simp [readMaps, hread])
      | ok r =>
          rcases r with ⟨rc, a, fd'⟩
          rcases hscan.sound hread with ⟨u, hfront, hline⟩
          replace hfront : content ++ List.replicate n 0 = u ++ fd'.text := htext.symm.trans hfront
          rcases lineText_iff.1 hline with ⟨l, rfl, hr⟩ | ⟨hmark, hr⟩
          · obtain ⟨rfl, rfl⟩ : rc = 1 ∧ a = l.area area := by simpa [mapsView] using hr
            rcases front_of_getLast? hfront l.bytes_last with ⟨content', rfl, hrest⟩
            have hshort : content'.length < fuel := by
              have hpos := l.bytes_ne_nil
              rw [List.length_append] at hfuel
              omega
            rcases ih hrest (l.area area) hshort with hexit | ⟨lines, hlines, hmore⟩
            · exact .inl (by simp [readMaps, hread, hexit])
            · refine .inr ⟨l :: lines, mapsFile_cons.2 hlines, ?_⟩
              simp only [readMaps, hread, Exec.ok_bind, hmore]
              rfl
          · obtain ⟨rfl, rfl⟩ : rc = 0 ∧ a = area := by simpa [mapsView] using hr
            rcases hmark.front hfront with ⟨rest, hsplit⟩
            exact .inr ⟨[], ⟨u, rest, by simpa using hsplit, hmark⟩, by simp [readMaps, hread]⟩

/-- The file read byte by byte, with as many reads behind its end as a name could take. -/
def patient (content : List UInt8) : InFile :=
  ⟨content, .error .EINTR :: byteReads (content ++ List.replicate fileNameSize 0)⟩

theorem patient_enough (content : List UInt8) :
    content.length + fileNameSize < strength (patient content).replies := by
  have henough := (flowing_byteReads (content ++ List.replicate fileNameSize 0)).enough
  simpa [patient] using henough

theorem patient_prompt (content : List UInt8) :
    ∀ r ∈ (patient content).replies, Prompt (fun e => decide (e = .EINTR)) r :=
  (flowing_byteReads (content ++ List.replicate fileNameSize 0)).prompt

/-- What the kernel prints is a file of lines, with the areas of its entries. -/
theorem mapsFile_printMaps (entries : List (MapsEntry × Nat)) (area : Area) :
    ∃ lines, MapsFile (printMaps entries) lines ∧
      (lines.map fun l => l.area area) = entries.map fun p => p.1.area area.properties := by
  have henough := patient_enough (printMaps entries)
  have hflow : (patient (printMaps entries)).Flowing :=
    ⟨patient_prompt _, lt_of_le_of_lt (Nat.le_add_right _ _) henough⟩
  have hfuel : entries.length < entries.length + (printMaps entries).length + 1 := by omega
  have hprinted := readMaps_printMaps entries area hflow rfl hfuel
  have htext := text_of_prompt hflow.prompt (Nat.le_of_lt hflow.enough)
  have hzeros : fileNameSize ≤
      strength (patient (printMaps entries)).replies - (printMaps entries).length := by omega
  have hfuel' : (patient (printMaps entries)).stream.length <
      entries.length + (printMaps entries).length + 1 := by
    show (printMaps entries).length < _
    omega
  rcases readMaps_outcome hzeros htext area hfuel' with hexit | ⟨lines, hfile, hread⟩
  · cases hprinted.symm.trans hexit
  · exact ⟨lines, hfile, Exec.ok.inj (hread.symm.trans hprinted)⟩

/-- Any text at all as the maps file, read by calls that may be interrupted but do not fail: the
callers' loop yields areas exactly when the text is made of lines and an end mark, and then the areas
of those lines, all of them in order and with fields that fit; on every other text the process leaves. -/
theorem readMaps_iff {fd : InFile}
    (hprompt : ∀ r ∈ fd.replies, Prompt (fun e => decide (e = .EINTR)) r)
    (henough : fd.stream.length + fileNameSize ≤ strength fd.replies) {area : Area}
    (hproperties : area.properties < wordSize) {fuel : Nat} (hfuel : fd.stream.length < fuel) :
    (∀ areas, readMaps fuel area fd = .ok areas ↔
      ∃ lines, MapsFile fd.stream lines ∧ areas = lines.map fun l => l.area area) ∧
    (readMaps fuel area fd = .exited ↔ ∀ lines, ¬ MapsFile fd.stream lines) ∧
    ∀ areas, readMaps fuel area fd = .ok areas →
      ∀ a ∈ areas, a.Fits ∧ a.addr ≤ a.endAddr ∧ a.size = a.endAddr - a.addr := by
  have hname : fileNameSize = 1023 + 1 := rfl
  have htext := text_of_prompt hprompt (by omega)
  obtain ⟨n, hn⟩ : ∃ n, strength fd.replies - fd.stream.length = n + 1 :=
    ⟨strength fd.replies - fd.stream.length - 1, by omega⟩
  rw [hn] at htext
  have houtcome := readMaps_outcome (by omega) htext area hfuel
  have hlines : ∀ {lines}, MapsFile fd.stream lines →
      readMaps fuel area fd = .ok (lines.map fun l => l.area area) :=
    fun h => readMaps_of_mapsFile h htext area hfuel
  have hok : ∀ areas, readMaps fuel area fd = .ok areas ↔
      ∃ lines, MapsFile fd.stream lines ∧ areas = lines.map fun l => l.area area := by
    intro areas
    constructor
    · intro hread
      rcases houtcome with hexit | ⟨lines, hfile, hread'⟩
      · cases hexit.symm.trans hread
      · exact ⟨lines, hfile, Exec.ok.inj (hread.symm.trans hread')⟩
    · rintro ⟨lines, hfile, rfl⟩
      exact hlines hfile
  refine ⟨hok, ⟨fun hexit lines hfile => ?_, fun hno => ?_⟩, fun areas hread a ha => ?_⟩
  · cases hexit.symm.trans (hlines hfile)
  · rcases houtcome with hexit | ⟨lines, hfile, _⟩
    · exact hexit
    · exact absurd hfile (hno lines)
  · rcases (hok areas).1 hread with ⟨lines, _, rfl⟩
    rcases List.mem_map.1 ha with ⟨l, _, rfl⟩
    exact ⟨l.area_fits hproperties, l.ordered, rfl⟩

/-- A line that the kernel never prints, without a single digit, and a zero for the end. -/
def digitless : List UInt8 :=
  cstr ['-', ' ', '-', 'w', '-', 'p', ' ', ' ', ':', ' ', '\n', '0']

theorem readMaps_iff_digitless :
    (∀ areas, readMaps 13 (decodeArea []) (patient digitless) = .ok areas ↔
      ∃ lines, MapsFile digitless lines ∧ areas = lines.map fun l => l.area (decodeArea [])) ∧
    (readMaps 13 (decodeArea []) (patient digitless) = .exited ↔
      ∀ lines, ¬ MapsFile digitless lines) ∧
    ∀ areas, readMaps 13 (decodeArea []) (patient digitless) = .ok areas →
      ∀ a ∈ areas, a.Fits ∧ a.addr ≤ a.endAddr ∧ a.size = a.endAddr - a.addr :=
  readMaps_iff (patient_prompt digitless) (Nat.le_of_lt (patient_enough digitless)) (by decide)
    (by decide)

end CkptRestart
