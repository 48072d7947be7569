import CkptRestart.DeepCopyStack.Relocated
import CkptRestart.Lib.Tokens
import CkptRestart.ProcMapsUtils

/-!
# StartStack — the place of `argc` in `/proc/self/stat`

`getProcStatField` of `kernel-loader.c` counts the words of a line.  The second field of the line is
the name of the program, in which there can be spaces; `readsStartStack_iff` says that the field
`startstack` is found exactly if there are none.
-/

namespace CkptRestart

open Lib

/-! ## The code -/

/-- `enum Procstat_t` -/
inductive Procstat where
  | pid
  | comm
  | state
  | ppid
  | numThreads
  | startstack
  deriving DecidableEq, Repr

def Procstat.val : Procstat → Nat
  | .pid => 1
  | .comm => 2
  | .state => 3
  | .ppid => 4
  | .numThreads => 19
  | .startstack => 27

/-- `strncpy(out, src, len)`: what is left of `len` bytes behind the string is filled with zeros. -/
def strncpy (out src : List UInt8) (len : Nat) : List UInt8 :=
  src.take len ++ List.replicate (len - src.length) 0 ++ out.drop len

/-- `getProcStatField`, for the contents of `/proc/self/stat` unless it cannot be opened: what `out`
holds afterwards.  The loop counts the words from zero on. -/
def getProcStatField (file : Option (List UInt8)) (type : Procstat) (out : List UInt8) (len : Nat) :
    List UInt8 :=
  match file with
  | none => out
  | some text =>
      let sbuf := text.take 1023
      if sbuf = [] then out
      else
        match nthToken (chr ' ') type.val (sbuf.takeWhile (· ≠ 0)) with
        | some field => strncpy out field len
        | none => out

def isSpace (c : UInt8) : Bool := decide (c = chr ' ' ∨ 9 ≤ c ∧ c ≤ 13)

/-- The number that a text starts with. -/
def leadingNumber (s : List UInt8) : Nat :=
  (s.takeWhile fun c => (decDigit c).isSome).foldl (fun v c => v * 10 + (decDigit c).getD 0) 0

/-- `atol`: spaces, a sign and digits; a number that is too large is the largest or smallest `long`. -/
def atol (s : List UInt8) : Int :=
  match (s.takeWhile (· ≠ 0)).dropWhile isSpace with
  | [] => 0
  | c :: cs =>
      if c = chr '-' then max (-(leadingNumber cs : Int)) (-2 ^ 63)
      else if c = chr '+' then min (leadingNumber cs : Int) (2 ^ 63 - 1)
      else min (leadingNumber (c :: cs) : Int) (2 ^ 63 - 1)

/-- The variable `stackEndStr` of `createNewStackForRtld` at first. -/
def stackEndStr : List UInt8 := List.replicate 20 0

/-- The number that `createNewStackForRtld` takes for the place of `argc`. -/
def readStartStack (file : Option (List UInt8)) : Int :=
  atol (getProcStatField file .startstack stackEndStr stackEndStr.length)

/-! ## What the kernel prints -/

def printInt (i : Int) : List UInt8 :=
  if i < 0 then chr '-' :: printNumber 10 1 i.natAbs else printNumber 10 1 i.natAbs

/-- One process, as `/proc/<pid>/stat` shows it: the fields up to `startstack`, which is the 28th, and
those behind it. -/
structure StatLine where
  pid : Int
  comm : List UInt8
  state : UInt8
  between : List Int
  startstack : Nat
  behind : List Int
  comm_nul : 0 ∉ comm
  state_ne : state ≠ 0 ∧ state ≠ chr ' '
  between_length : between.length = 24
  startstack_lt : startstack < 2 ^ 63
  behind_ne : behind ≠ []

namespace StatLine

/-- The name with its parentheses. -/
def commField (l : StatLine) : List UInt8 := chr '(' :: (l.comm ++ [chr ')'])

/-- The fields in front of `startstack`. -/
def front (l : StatLine) : List (List UInt8) :=
  [printInt l.pid, l.commField, [l.state]] ++ l.between.map printInt

/-- The line `%d (%s) %c %d ... %lu %d ...` -/
def text (l : StatLine) : List UInt8 :=
  l.front.flatMap (· ++ [chr ' ']) ++ (printNumber 10 1 l.startstack ++
    (l.behind.flatMap (fun i => chr ' ' :: printInt i) ++ [chr '\n']))

end StatLine

/-! ## Printed numbers -/

theorem printNumber_ne_nil (n : Nat) : printNumber 10 1 n ≠ [] := by
  intro hnil
  have hlen : 1 ≤ (printNumber 10 1 n).length := by
    simp [printNumber, numeral, List.leftpad]
    omega
  simp [hnil] at hlen

theorem mem_printNumber {n : Nat} {c : UInt8} (h : c ∈ printNumber 10 1 n) :
    ∃ d < 10, c = digitChar d := by
  rcases List.mem_map.1 h with ⟨d, hd, rfl⟩
  exact ⟨d, lt_of_mem_numeral (by decide) hd, rfl⟩

/-- The characters of a printed number. -/
theorem digitChar_ne {d : Nat} (hd : d < 10) : digitChar d ≠ chr ' ' ∧ digitChar d ≠ 0 := by
  have hall : ∀ d < 10, digitChar d ≠ chr ' ' ∧ digitChar d ≠ 0 := by decide
  exact hall d hd

/-- A digit is no space and no sign. -/
theorem digitChar_first {d : Nat} (hd : d < 10) :
    isSpace (digitChar d) = false ∧ digitChar d ≠ chr '-' ∧ digitChar d ≠ chr '+' := by
  have hall : ∀ d < 10, isSpace (digitChar d) = false ∧ digitChar d ≠ chr '-' ∧
      digitChar d ≠ chr '+' := by decide
  exact hall d hd

/-- The text is one word. -/
structure IsWord (w : List UInt8) : Prop where
  ne_nil : w ≠ []
  space : chr ' ' ∉ w
  nul : 0 ∉ w

theorem IsWord.tokens {w : List UInt8} (h : IsWord w) : tokens (chr ' ') w = [w] :=
  tokens_of_not_mem h.space h.ne_nil

theorem isWord_printNumber (n : Nat) : IsWord (printNumber 10 1 n) where
  ne_nil := printNumber_ne_nil n
  space := by
    intro hin
    obtain ⟨d, hd, heq⟩ := mem_printNumber hin
    exact (digitChar_ne hd).1 heq.symm
  nul := by
    intro hin
    obtain ⟨d, hd, heq⟩ := mem_printNumber hin
    exact (digitChar_ne hd).2 heq.symm

theorem isWord_printInt (i : Int) : IsWord (printInt i) := by
  have hword := isWord_printNumber i.natAbs
  unfold printInt
  split
  · refine ⟨List.cons_ne_nil _ _, fun hin => ?_, fun hin => ?_⟩
    · exact hword.space ((List.mem_cons.1 hin).resolve_left (by decide))
    · exact hword.nul ((List.mem_cons.1 hin).resolve_left (by decide))
  · exact hword

/-- What was printed is read back. -/
theorem leadingNumber_printNumber (n : Nat) : leadingNumber (printNumber 10 1 n) = n := by
  have hdigits : (printNumber 10 1 n).takeWhile (fun c => (decDigit c).isSome) =
      printNumber 10 1 n := by
    refine List.takeWhile_eq_self_iff.2 fun c hc => ?_
    obtain ⟨d, hd, rfl⟩ := mem_printNumber hc
    rw [decDigit_digitChar hd]
    rfl
  have hfold : ∀ (ds : List Nat) (v : Nat), (∀ d ∈ ds, d < 10) →
      (ds.map digitChar).foldl (fun v c => v * 10 + (decDigit c).getD 0) v = readDigits 10 v ds := by
    intro ds
    induction ds with
    | nil => exact fun _ _ => rfl
    | cons d ds ih =>
        intro v hds
        obtain ⟨hd, hds⟩ := List.forall_mem_cons.1 hds
        rw [List.map_cons, List.foldl_cons, decDigit_digitChar hd, readDigits_cons]
        exact ih _ hds
  calc leadingNumber (printNumber 10 1 n)
      = readDigits 10 0 (numeral 10 1 n) := by
        rw [leadingNumber, hdigits]
        exact hfold _ 0 fun d hd => lt_of_mem_numeral (by decide) hd
    _ = n := readDigits_numeral 10 1 n

/-! ## The words of a line -/

namespace StatLine

variable (l : StatLine)

theorem isWord_state : IsWord [l.state] where
  ne_nil := List.cons_ne_nil _ _
  space := fun hin => l.state_ne.2 (List.mem_singleton.1 hin).symm
  nul := fun hin => l.state_ne.1 (List.mem_singleton.1 hin).symm

theorem tokens_front :
    l.front.flatMap (tokens (chr ' ')) =
      [printInt l.pid] ++ tokens (chr ' ') l.commField ++ [l.state] :: l.between.map printInt := by
  have hbetween : (l.between.map printInt).flatMap (tokens (chr ' ')) = l.between.map printInt := by
    rw [List.flatMap_map, List.flatMap_congr fun i _ => (isWord_printInt i).tokens]
    exact List.flatMap_pure_eq_map printInt l.between
  simp [front, (isWord_printInt l.pid).tokens, l.isWord_state.tokens, hbetween]

/-- Of the words in front of `startstack`, all but those of the name are 26. -/
theorem length_tokens_front :
    (l.front.flatMap (tokens (chr ' '))).length = (tokens (chr ' ') l.commField).length + 26 := by
  rw [tokens_front]
  simp [l.between_length]

theorem tokens_text : ∃ rest, tokens (chr ' ') l.text =
    l.front.flatMap (tokens (chr ' ')) ++ printNumber 10 1 l.startstack :: rest := by
  obtain ⟨i, is, hbehind⟩ := List.exists_cons_of_ne_nil l.behind_ne
  let rest := printInt i ++ (is.flatMap (fun i => chr ' ' :: printInt i) ++ [chr '\n'])
  have htext : l.text = l.front.flatMap (· ++ [chr ' ']) ++
      (printNumber 10 1 l.startstack ++ chr ' ' :: rest) := by
    simp [text, hbehind, rest]
  refine ⟨tokens (chr ' ') rest, ?_⟩
  rw [htext, tokens_flatMap, tokens_append_cons, (isWord_printNumber l.startstack).tokens]
  rfl

theorem nul_not_mem_front : ∀ w ∈ l.front, 0 ∉ w := by
  have hcomm : 0 ∉ l.commField := by
    simp only [commField, List.mem_cons, List.mem_append, List.not_mem_nil, or_false, not_or]
    exact ⟨by decide, l.comm_nul, by decide⟩
  intro w hw
  rcases List.mem_append.1 hw with hw | hw
  · simp only [List.mem_cons, List.not_mem_nil, or_false] at hw
    rcases hw with rfl | rfl | rfl
    · exact (isWord_printInt l.pid).nul
    · exact hcomm
    · exact l.isWord_state.nul
  · obtain ⟨i, _, rfl⟩ := List.mem_map.1 hw
    exact (isWord_printInt i).nul

theorem nul_not_mem_text : 0 ∉ l.text := by
  simp only [text, List.mem_append, List.mem_flatMap, List.mem_cons, List.not_mem_nil, or_false,
    not_or, not_exists, not_and]
  refine ⟨fun w hw => ?_, (isWord_printNumber l.startstack).nul, fun i _ => ?_, by decide⟩
  · exact ⟨l.nul_not_mem_front w hw, by decide⟩
  · exact ⟨by decide, (isWord_printInt i).nul⟩

/-- The word that the loop stops at. -/
theorem getProcStatField_text (hlen : l.text.length < 1024) :
    getProcStatField (some l.text) .startstack stackEndStr stackEndStr.length =
      match (tokens (chr ' ') l.text)[27]? with
      | some field => strncpy stackEndStr field stackEndStr.length
      | none => stackEndStr := by
  have hall : l.text.take 1023 = l.text := List.take_of_length_le (by omega)
  have hne : l.text ≠ [] := by
    intro hnil
    obtain ⟨rest, htokens⟩ := l.tokens_text
    rw [hnil, tokens_nil] at htokens
    simp at htokens
  have hstring : l.text.takeWhile (· ≠ 0) = l.text :=
    List.takeWhile_eq_self_iff.2 fun c hc => by
      simpa using fun h0 : c = 0 => l.nul_not_mem_text (h0 ▸ hc)
  simp only [getProcStatField, hall, if_neg hne, hstring, nthToken_eq, Procstat.val]

/-- A name without spaces is one word. -/
theorem length_tokens_commField_of_not_mem (h : chr ' ' ∉ l.comm) :
    (tokens (chr ' ') l.commField).length = 1 := by
  have hspace : chr ' ' ∉ l.commField := by
    simp only [commField, List.mem_cons, List.mem_append, List.not_mem_nil, or_false, not_or]
    exact ⟨by decide, h, by decide⟩
  rw [tokens_of_not_mem hspace (List.cons_ne_nil _ _)]
  rfl

/-- A space divides it: the parentheses are in different words. -/
theorem two_le_length_tokens_commField (h : chr ' ' ∈ l.comm) :
    2 ≤ (tokens (chr ' ') l.commField).length := by
  obtain ⟨a, b, hcomm⟩ := List.append_of_mem h
  have hsplit : l.commField = (chr '(' :: a) ++ chr ' ' :: (b ++ [chr ')']) := by
    simp [commField, hcomm]
  have hfirst : tokens (chr ' ') (chr '(' :: a) ≠ [] := tokens_ne_nil List.mem_cons_self (by decide)
  have hlast : tokens (chr ' ') (b ++ [chr ')']) ≠ [] :=
    tokens_ne_nil (List.mem_append_right b (List.mem_singleton_self (chr ')'))) (by decide)
  have hfirstPos := List.length_pos_iff.2 hfirst
  have hlastPos := List.length_pos_iff.2 hlast
  rw [hsplit, tokens_append_cons, List.length_append]
  omega

end StatLine

/-! ## What is read -/

theorem length_printNumber_le {n : Nat} (hn : n < 10 ^ 19) : (printNumber 10 1 n).length ≤ 19 := by
  have hdigits := (Nat.digits_length_le_iff (by decide : 1 < 10) n).2 hn
  simp only [printNumber, numeral, List.length_map, List.length_leftpad, List.length_reverse]
  omega

/-- The number is read back from the buffer. -/
theorem atol_printNumber {n : Nat} (hn : n < 2 ^ 63) (k : Nat) :
    atol (printNumber 10 1 n ++ List.replicate k 0) = n := by
  have hstring : (printNumber 10 1 n ++ List.replicate k 0).takeWhile (· ≠ 0) =
      printNumber 10 1 n := by
    rw [List.takeWhile_append_of_pos fun c hc => ?_]
    · simp
    · obtain ⟨d, hd, rfl⟩ := mem_printNumber hc
      simpa using (digitChar_ne hd).2
  obtain ⟨c, cs, hcons⟩ := List.exists_cons_of_ne_nil (printNumber_ne_nil n)
  obtain ⟨d, hd, rfl⟩ := mem_printNumber (n := n) (c := c) (by simp [hcons])
  obtain ⟨hspace, hminus, hplus⟩ := digitChar_first hd
  have hnumber := leadingNumber_printNumber n
  rw [hcons] at hnumber
  have hmin : min ((n : Nat) : Int) (2 ^ 63 - 1) = n := min_eq_left (by omega)
  rw [atol, hstring, hcons, List.dropWhile_cons, if_neg (by simp [hspace])]
  simp only [if_neg hminus, if_neg hplus, hnumber, hmin]

/-- The buffer holds the digits, and the copy of the stack starts where `argc` is. -/
structure ReadsStartStack (l : StatLine) : Prop where
  digits : getProcStatField (some l.text) .startstack stackEndStr stackEndStr.length =
    printNumber 10 1 l.startstack ++
      List.replicate (stackEndStr.length - (printNumber 10 1 l.startstack).length) 0
  argc : ∀ fuel environ newStack area info m, NewRegion newStack area.addr area.size →
    area.addr + 8 ≤ l.startstack → l.startstack < area.addr + area.size + 8 →
    area.addr + area.size ≤ wordSize →
    copyStackForRtld fuel environ newStack area (readStartStack (some l.text)) info m =
      deepCopyStack fuel environ newStack area.addr area.size
        (relocate newStack area.addr (l.startstack - 8)) (l.startstack - 8) (some info) m

theorem StatLine.readsStartStack (l : StatLine) (h : chr ' ' ∉ l.comm)
    (hlen : l.text.length < 1024) : ReadsStartStack l := by
  have hindex : (tokens (chr ' ') l.text)[27]? = some (printNumber 10 1 l.startstack) := by
    obtain ⟨rest, htokens⟩ := l.tokens_text
    have hfront := l.length_tokens_front
    rw [l.length_tokens_commField_of_not_mem h] at hfront
    rw [htokens, List.getElem?_append_right (by omega), hfront]
    rfl
  have hlt := l.startstack_lt
  have hdigits := length_printNumber_le (hlt.trans (by decide))
  have hout : getProcStatField (some l.text) .startstack stackEndStr stackEndStr.length =
      printNumber 10 1 l.startstack ++
        List.replicate (stackEndStr.length - (printNumber 10 1 l.startstack).length) 0 := by
    have htake : (printNumber 10 1 l.startstack).take stackEndStr.length =
        printNumber 10 1 l.startstack :=
      List.take_of_length_le (hdigits.trans (by decide))
    rw [l.getProcStatField_text hlen, hindex]
    simp only [strncpy, htake, List.drop_length, List.append_nil]
  refine ⟨hout, fun fuel environ newStack area info m hnew hlo hhi hbounded => ?_⟩
  have hread : readStartStack (some l.text) = ((l.startstack - 8 + 8 : Nat) : Int) := by
    rw [readStartStack, hout, atol_printNumber hlt]
    omega
  rw [hread]
  exact copyStackForRtld_eq hnew info (by omega) (by omega) hbounded

/-- With a space in the name, the word that the loop stops at does not depend on the field. -/
theorem StatLine.getElem?_tokens_text (l : StatLine) (h : chr ' ' ∈ l.comm) :
    (tokens (chr ' ') l.text)[27]? = (l.front.flatMap (tokens (chr ' ')))[27]? := by
  obtain ⟨rest, htokens⟩ := l.tokens_text
  have hfront := l.length_tokens_front
  have htwo := l.two_le_length_tokens_commField h
  rw [htokens, List.getElem?_append_left (by omega)]

/-- For a name the field is read, in every line, exactly if there is no space in the name. -/
theorem readsStartStack_iff {comm : List UInt8}
    (hfits : ∃ l : StatLine, l.comm = comm ∧ l.text.length < 1024) :
    (∀ l : StatLine, l.comm = comm → l.text.length < 1024 → ReadsStartStack l) ↔
      chr ' ' ∉ comm := by
  constructor
  · intro hreads hspace
    obtain ⟨l, rfl, hlen⟩ := hfits
    -- two lines that differ in the field only
    let one : StatLine := { l with startstack := 1, startstack_lt := by decide }
    let two : StatLine := { l with startstack := 2, startstack_lt := by decide }
    have hpos := List.length_pos_iff.2 (printNumber_ne_nil l.startstack)
    have hshort : ∀ n, (printNumber 10 1 n).length = 1 →
        (l.front.flatMap (· ++ [chr ' ']) ++ (printNumber 10 1 n ++
          (l.behind.flatMap (fun i => chr ' ' :: printInt i) ++ [chr '\n']))).length < 1024 := by
      intro n hn
      simp only [StatLine.text, List.length_append] at hlen ⊢
      omega
    have hone : one.text.length < 1024 := hshort 1 (by decide)
    have htwo : two.text.length < 1024 := hshort 2 (by decide)
    have hsame : getProcStatField (some one.text) .startstack stackEndStr stackEndStr.length =
        getProcStatField (some two.text) .startstack stackEndStr stackEndStr.length := by
      rw [one.getProcStatField_text hone, two.getProcStatField_text htwo,
        one.getElem?_tokens_text hspace, two.getElem?_tokens_text hspace]
      rfl
    rw [(hreads one rfl hone).digits, (hreads two rfl htwo).digits] at hsame
    have hdiffer : printNumber 10 1 1 ++ List.replicate (20 - (printNumber 10 1 1).length) 0 ≠
        printNumber 10 1 2 ++ List.replicate (20 - (printNumber 10 1 2).length) 0 := by decide
    exact hdiffer hsame
  · rintro hspace l rfl hlen
    exact l.readsStartStack hspace hlen

/-- A line of a process with the name, whose other fields are zero. -/
def plainLine (comm : List UInt8) (startstack : Nat) (hcomm : 0 ∉ comm)
    (hstack : startstack < 2 ^ 63) : StatLine where
  pid := 7
  comm := comm
  state := chr 'R'
  between := List.replicate 24 0
  startstack := startstack
  behind := List.replicate 24 0
  comm_nul := hcomm
  state_ne := by decide
  between_length := rfl
  startstack_lt := hstack
  behind_ne := by decide

/-- A program called `app`. -/
def appLine : StatLine := plainLine (cstr ['a', 'p', 'p']) 0x7ffd1000 (by decide) (by decide)

/-- A program called `my app`. -/
def myAppLine : StatLine :=
  plainLine (cstr ['m', 'y', ' ', 'a', 'p', 'p']) 0x7ffd1000 (by decide) (by decide)

/-- In the line of `app` the field is read. -/
theorem readsStartStack_app : ReadsStartStack appLine :=
  (readsStartStack_iff ⟨appLine, rfl, by decide⟩).2 (by decide) appLine rfl (by decide)

/-- In the line of `my app` the field before it is. -/
theorem not_readsStartStack_myApp :
    myAppLine.text.length < 1024 ∧
      getProcStatField (some myAppLine.text) .startstack stackEndStr stackEndStr.length =
        printNumber 10 1 0 ++ List.replicate 19 0 ∧
      ¬ ReadsStartStack myAppLine := by
  have hout : getProcStatField (some myAppLine.text) .startstack stackEndStr stackEndStr.length =
      printNumber 10 1 0 ++ List.replicate 19 0 := by decide +kernel
  refine ⟨by decide, hout, fun hreads => ?_⟩
  have hdigits := hout.symm.trans hreads.digits
  exact absurd hdigits (by decide)

end CkptRestart
