import CkptRestart.Format
import CkptRestart.Utils
import CkptRestart.Lib.Digits
import CkptRestart.Lib.Exec
import Mathlib.Data.List.TakeWhile

/-!
# ProcMapsUtils — parsing `/proc/self/maps`

`procmapsutils.c`: `readMapsLine` reads one line of the maps file, a character at a time.  A line that
it does not understand ends the process.

`MapsEntry.line` prints an entry as the kernel does, and `readsLines` says that successive calls get
back what was printed.
-/

namespace CkptRestart

open Lib

/-! ## Characters and numbers -/

/-- The loop of `readChar`: of the failures only `EINTR` is tried again, any other looks like the end
of the file. -/
def readCharLoop (stream : List UInt8) : List (Reply Errno) → Option (UInt8 × InFile)
  | [] => none
  | .error e :: replies =>
      if e = .EINTR then readCharLoop stream replies else some (0, ⟨stream, replies⟩)
  | .moved k :: replies =>
      match stream with
      | [] => some (0, ⟨[], replies⟩)
      | c :: rest => if k = 0 then some (0, ⟨c :: rest, replies⟩) else some (c, ⟨rest, replies⟩)

def readChar (fd : InFile) : Option (UInt8 × InFile) := readCharLoop fd.stream fd.replies

/-- The common loop of `readDec` and `readHex`; `digit` is the value of a character that is one. -/
def readNumberLoop (digit : UInt8 → Option Nat) (base : Nat) :
    Nat → Nat → InFile → Option (UInt8 × Nat × InFile)
  | 0, _, _ => none
  | fuel + 1, v, fd => do
      let (c, fd) ← readChar fd
      match digit c with
      | some d => readNumberLoop digit base fuel (wrap (v * base + d)) fd
      | none => pure (c, v, fd)

/-- A number, and the character that ends it: every round makes a call of `read`. -/
def readNumber (digit : UInt8 → Option Nat) (base : Nat) (fd : InFile) :
    Option (UInt8 × Nat × InFile) :=
  readNumberLoop digit base (fd.replies.length + 1) 0 fd

def decDigit (c : UInt8) : Option Nat :=
  if chr '0' ≤ c ∧ c ≤ chr '9' then some (c - chr '0').toNat else none

def hexDigit (c : UInt8) : Option Nat :=
  if chr '0' ≤ c ∧ c ≤ chr '9' then some (c - chr '0').toNat
  else if chr 'a' ≤ c ∧ c ≤ chr 'f' then some (c - (chr 'a' - 10)).toNat
  else if chr 'A' ≤ c ∧ c ≤ chr 'F' then some (c - (chr 'A' - 10)).toNat
  else none

def readDec : InFile → Option (UInt8 × Nat × InFile) := readNumber decDigit 10

def readHex : InFile → Option (UInt8 × Nat × InFile) := readNumber hexDigit 16

/-! ## One line -/

/-- The loop behind the label `skipeol`, and the `abort` after it. -/
def skipEolLoop {α : Type} : Nat → UInt8 → InFile → Exec α
  | 0, c, _ => if c = chr '\n' ∨ c = 0 then .exited else .running
  | fuel + 1, c, fd =>
      if c = chr '\n' ∨ c = 0 then .exited
      else do
        let (c, fd) ← Exec.ofOption (readChar fd)
        skipEolLoop fuel c fd

def skipEol {α : Type} (c : UInt8) (fd : InFile) : Exec α := skipEolLoop fd.replies.length c fd

/-- `while (c == ' ') c = readChar (mapsfd);` -/
def skipSpaces : Nat → UInt8 → InFile → Option (UInt8 × InFile)
  | 0, c, fd => if c = chr ' ' then none else some (c, fd)
  | fuel + 1, c, fd =>
      if c = chr ' ' then do
        let (c, fd) ← readChar fd
        skipSpaces fuel c fd
      else some (c, fd)

/-- The loop that stores the name; a name without room for the terminator leaves for `skipeol`. -/
def readName : Nat → List UInt8 → UInt8 → InFile → Exec (List UInt8 × UInt8 × InFile)
  | 0, _, _, _ => .running
  | fuel + 1, name, c, fd =>
      let name := name ++ [c]
      if name.length = fileNameSize then skipEol c fd
      else do
        let (c, fd) ← Exec.ofOption (readChar fd)
        if c ≠ chr '\n' then readName fuel name c fd
        else pure (name, c, fd)

/-- An absolute pathname, or `[stack]`, `[vdso]` and the like. -/
def readNameField (c : UInt8) (fd : InFile) : Exec (List UInt8 × UInt8 × InFile) :=
  if c = chr '/' ∨ c = chr '[' then readName (fd.replies.length + 1) [] c fd
  else pure ([], c, fd)

/-- A field of one character, which must be one of two. -/
def readFlag (yes no : UInt8) (fd : InFile) : Exec (UInt8 × InFile) := do
  let (c, fd) ← Exec.ofOption (readChar fd)
  if c ≠ yes ∧ c ≠ no then skipEol c fd
  else pure (c, fd)

/-- A hexadecimal field, which must end with `sep`. -/
def readHexField (sep : UInt8) (fd : InFile) : Exec (Nat × InFile) := do
  let (c, v, fd) ← Exec.ofOption (readHex fd)
  if c ≠ sep then skipEol c fd
  else pure (v, fd)

/-- The assignments to `*area`.  Its name, a C string, ends at its first zero. -/
def fillArea (area : Area) (startaddr endaddr : Nat) (rflag wflag xflag sflag : UInt8)
    (offset devmajor devminor inodenum : Nat) (name : List UInt8) : Area :=
  let name := name.takeWhile (· ≠ 0)
  let prot := if rflag = chr 'r' then protRead else 0
  let prot := if wflag = chr 'w' then prot ||| protWrite else prot
  let prot := if xflag = chr 'x' then prot ||| protExec else prot
  let flags := CkptRestart.mapFixed
  let flags := if sflag = chr 's' then flags ||| mapShared else flags
  let flags := if sflag = chr 'p' then flags ||| mapPrivate else flags
  let flags := if name = [] then flags ||| mapAnonymous else flags
  { addr := startaddr
    endAddr := endaddr
    size := endaddr - startaddr
    offset := offset
    prot := prot
    flags := flags
    devmajor := devmajor
    devminor := devminor
    inodenum := inodenum
    properties := area.properties
    name := name }

/-- `readMapsLine`: its result, `*area`, and the descriptor. -/
def readMapsLine (mapsfd : InFile) (area : Area) : Exec (Int × Area × InFile) := do
  let (c, startaddr, fd) ← Exec.ofOption (readHex mapsfd)
  if c ≠ chr '-' then
    if c = 0 ∧ startaddr = 0 then pure (0, area, fd)
    else skipEol c fd
  else do
    let (c, endaddr, fd) ← Exec.ofOption (readHex fd)
    if c ≠ chr ' ' then skipEol c fd
    else if endaddr < startaddr then skipEol c fd
    else do
      let (rflag, fd) ← readFlag (chr 'r') (chr '-') fd
      let (wflag, fd) ← readFlag (chr 'w') (chr '-') fd
      let (xflag, fd) ← readFlag (chr 'x') (chr '-') fd
      let (sflag, fd) ← readFlag (chr 's') (chr 'p') fd
      let (c, fd) ← Exec.ofOption (readChar fd)
      if c ≠ chr ' ' then skipEol c fd
      else do
        let (offset, fd) ← readHexField (chr ' ') fd
        let (devmajor, fd) ← readHexField (chr ':') fd
        let (devminor, fd) ← readHexField (chr ' ') fd
        let (c, inodenum, fd) ← Exec.ofOption (readDec fd)
        let (c, fd) ← Exec.ofOption (skipSpaces fd.replies.length c fd)
        let (name, c, fd) ← readNameField c fd
        if c ≠ chr '\n' then skipEol c fd
        else
          pure (1, fillArea area startaddr endaddr rflag wflag xflag sflag offset devmajor devminor
            inodenum name, fd)

/-! ## What the kernel prints -/

/-- A digit as `%x` and `%lu` print it. -/
def digitChar (d : Nat) : UInt8 :=
  if d < 10 then chr '0' + UInt8.ofNat d else chr 'a' + UInt8.ofNat (d - 10)

theorem hexDigit_digitChar {d : Nat} (h : d < 16) : hexDigit (digitChar d) = some d := by
  have hall : ∀ d < 16, hexDigit (digitChar d) = some d := by decide
  exact hall d h

theorem decDigit_digitChar {d : Nat} (h : d < 10) : decDigit (digitChar d) = some d := by
  have hall : ∀ d < 10, decDigit (digitChar d) = some d := by decide
  exact hall d h

/-- A number in some base, padded with zeros. -/
def printNumber (base width n : Nat) : List UInt8 := (numeral base width n).map digitChar

example : printNumber 16 8 0x7f00 = cstr ['0', '0', '0', '0', '7', 'f', '0', '0'] := by decide

/-- One mapping, as a line of `/proc/self/maps` shows it. -/
structure MapsEntry where
  startaddr : Nat
  endaddr : Nat
  r : Bool
  w : Bool
  x : Bool
  shared : Bool
  offset : Nat
  devmajor : Nat
  devminor : Nat
  inodenum : Nat
  name : List UInt8
  ordered : startaddr ≤ endaddr := by decide
  endaddr_lt : endaddr < wordSize := by decide
  offset_lt : offset < wordSize := by decide
  devmajor_lt : devmajor < wordSize := by decide
  devminor_lt : devminor < wordSize := by decide
  inodenum_lt : inodenum < wordSize := by decide
  name_head : name = [] ∨ name.head? = some (chr '/') ∨ name.head? = some (chr '[') := by decide
  name_length : name.length < fileNameSize := by decide
  name_newline : chr '\n' ∉ name := by decide
  name_nul : (0 : UInt8) ∉ name := by decide

namespace MapsEntry

def flagChar (b : Bool) (yes no : Char) : UInt8 := if b then chr yes else chr no

/-- The line `%08x-%08x rwxp %08x %02x:%02x %lu`, spaces, and the name. -/
def line (e : MapsEntry) (pad : Nat) : List UInt8 :=
  printNumber 16 8 e.startaddr ++ chr '-' :: (printNumber 16 8 e.endaddr ++ chr ' ' ::
    flagChar e.r 'r' '-' :: flagChar e.w 'w' '-' :: flagChar e.x 'x' '-' ::
    flagChar e.shared 's' 'p' :: chr ' ' :: (printNumber 16 8 e.offset ++ chr ' ' ::
    (printNumber 16 2 e.devmajor ++ chr ':' :: (printNumber 16 2 e.devminor ++ chr ' ' ::
    (printNumber 10 1 e.inodenum ++ (List.replicate pad (chr ' ') ++ (e.name ++ [chr '\n'])))))))

/-- The area of the mapping; `properties` is not a field of the line. -/
def area (e : MapsEntry) (properties : Nat) : Area where
  addr := e.startaddr
  endAddr := e.endaddr
  size := e.endaddr - e.startaddr
  offset := e.offset
  prot := (if e.r then protRead else 0) ||| (if e.w then protWrite else 0) |||
    (if e.x then protExec else 0)
  flags := mapFixed ||| (if e.shared then mapShared else mapPrivate) |||
    (if e.name = [] then mapAnonymous else 0)
  devmajor := e.devmajor
  devminor := e.devminor
  inodenum := e.inodenum
  properties := properties
  name := e.name

/-- What a line says fits the fields of an area. -/
theorem area_fits (e : MapsEntry) {properties : Nat} (h : properties < wordSize) :
    (e.area properties).Fits where
  addr := lt_of_le_of_lt e.ordered e.endaddr_lt
  endAddr := e.endaddr_lt
  size := lt_of_le_of_lt (Nat.sub_le _ _) e.endaddr_lt
  offset := e.offset_lt
  prot := by
    cases hr : e.r <;> cases hw : e.w <;> cases hx : e.x <;> simp [area, hr, hw, hx] <;> decide
  flags := by
    cases hs : e.shared <;> by_cases hn : e.name = [] <;> simp [area, hs, hn] <;> decide
  devmajor := e.devmajor_lt
  devminor := e.devminor_lt
  inodenum := e.inodenum_lt
  properties := h
  name_length := e.name_length
  name_nul := e.name_nul

end MapsEntry

/-! ## Reading what was printed -/

/-- The coming reads may be interrupted, but none of them fails, and there are enough of them for
every byte of the file and for its end. -/
structure InFile.Flowing (fd : InFile) : Prop where
  prompt : ∀ r ∈ fd.replies, Prompt (fun e => decide (e = .EINTR)) r
  enough : fd.stream.length < strength fd.replies

theorem readCharLoop_cons {c : UInt8} {rest : List UInt8} {replies : List (Reply Errno)}
    (h : (⟨c :: rest, replies⟩ : InFile).Flowing) :
    ∃ replies', readCharLoop (c :: rest) replies = some (c, ⟨rest, replies'⟩) ∧
      (⟨rest, replies'⟩ : InFile).Flowing := by
  induction replies with
  | nil => exact absurd h.enough (Nat.not_lt_zero _)
  | cons q replies ih =>
      have htail : ∀ r ∈ replies, Prompt (fun e => decide (e = .EINTR)) r :=
        fun r hr => h.prompt r (List.mem_cons_of_mem _ hr)
      cases q with
      | error e =>
          obtain rfl : e = .EINTR := by simpa [Prompt] using h.prompt (.error e) (by simp)
          rcases ih ⟨htail, h.enough⟩ with ⟨replies', hread, hflow⟩
          exact ⟨replies', by simpa [readCharLoop] using hread, hflow⟩
      | moved k =>
          have hk : k ≠ 0 := Nat.pos_iff_ne_zero.1 (h.prompt (.moved k) (by simp))
          exact ⟨replies, by simp [readCharLoop, hk], htail, Nat.lt_of_succ_lt_succ h.enough⟩

theorem readCharLoop_nil {replies : List (Reply Errno)}
    (h : (⟨[], replies⟩ : InFile).Flowing) :
    ∃ replies', readCharLoop [] replies = some (0, ⟨[], replies'⟩) := by
  induction replies with
  | nil => exact absurd h.enough (Nat.not_lt_zero _)
  | cons q replies ih =>
      have htail : ∀ r ∈ replies, Prompt (fun e => decide (e = .EINTR)) r :=
        fun r hr => h.prompt r (List.mem_cons_of_mem _ hr)
      cases q with
      | error e =>
          obtain rfl : e = .EINTR := by simpa [Prompt] using h.prompt (.error e) (by simp)
          rcases ih ⟨htail, h.enough⟩ with ⟨replies', hread⟩
          exact ⟨replies', by simpa [readCharLoop] using hread⟩
      | moved k => exact ⟨replies, rfl⟩

/-- The next character of the stream is read. -/
theorem readChar_cons {fd : InFile} (h : fd.Flowing) {c : UInt8} {rest : List UInt8}
    (hstream : fd.stream = c :: rest) :
    ∃ fd', readChar fd = some (c, fd') ∧ fd'.stream = rest ∧ fd'.Flowing := by
  rcases fd with ⟨stream, replies⟩
  obtain rfl : stream = c :: rest := hstream
  rcases readCharLoop_cons h with ⟨replies', hread, hflow⟩
  exact ⟨⟨rest, replies'⟩, hread, rfl, hflow⟩

theorem readNumberLoop_spec {digit : UInt8 → Option Nat} (base : Nat) {ds : List Nat}
    (hds : ∀ d ∈ ds, digit (digitChar d) = some d) {c : UInt8} (hc : digit c = none)
    {rest : List UInt8} {fd : InFile} (h : fd.Flowing)
    (hstream : fd.stream = ds.map digitChar ++ c :: rest) {fuel : Nat} (hfuel : ds.length < fuel)
    (v : Nat) :
    ∃ fd', readNumberLoop digit base fuel v fd =
        some (c, ds.foldl (fun v d => wrap (v * base + d)) v, fd') ∧
      fd'.stream = rest ∧ fd'.Flowing := by
  induction ds generalizing v fd fuel with
  | nil =>
      cases fuel with
      | zero => exact absurd hfuel (Nat.not_lt_zero _)
      | succ fuel =>
          rcases readChar_cons h hstream with ⟨fd', hread, hrest⟩
          exact ⟨fd', by simp [readNumberLoop, hread, hc], hrest⟩
  | cons d ds ih =>
      cases fuel with
      | zero => exact absurd hfuel (Nat.not_lt_zero _)
      | succ fuel =>
          rcases readChar_cons h hstream with ⟨fd₁, hread, hstream₁, hflow₁⟩
          rcases ih (fun e he => hds e (List.mem_cons_of_mem _ he)) hflow₁ hstream₁
            (Nat.lt_of_succ_lt_succ hfuel) (wrap (v * base + d)) with ⟨fd', hloop, hrest⟩
          exact ⟨fd', by simp [readNumberLoop, hread, hds d (by simp), hloop], hrest⟩

/-- A printed number is read back, with the character behind it. -/
theorem readNumber_print {digit : UInt8 → Option Nat} {base : Nat} (hbase : 1 < base)
    (hdigit : ∀ d < base, digit (digitChar d) = some d) {width n : Nat} (hn : n < wordSize)
    {c : UInt8} (hc : digit c = none) {rest : List UInt8} {fd : InFile} (h : fd.Flowing)
    (hstream : fd.stream = printNumber base width n ++ c :: rest) :
    ∃ fd', readNumber digit base fd = some (c, n, fd') ∧ fd'.stream = rest ∧ fd'.Flowing := by
  have hfuel : (numeral base width n).length < fd.replies.length + 1 := by
    have henough := h.enough
    have hreplies := strength_le_length fd.replies
    rw [hstream, printNumber, List.length_append, List.length_map] at henough
    omega
  rcases readNumberLoop_spec base (fun d hd => hdigit d (lt_of_mem_numeral hbase hd)) hc h hstream
    hfuel 0 with ⟨fd', hread, hrest⟩
  have hvalue : (numeral base width n).foldl (fun v d => wrap (v * base + d)) 0 = n := by
    have hmod := foldl_mod_eq base wordSize 0 (numeral base width n)
    rw [readDigits_numeral, Nat.mod_eq_of_lt hn] at hmod
    exact hmod
  exact ⟨fd', by rw [readNumber, hread, hvalue], hrest⟩

theorem readHex_print {width n : Nat} (hn : n < wordSize) {c : UInt8} (hc : hexDigit c = none)
    {rest : List UInt8} {fd : InFile} (h : fd.Flowing)
    (hstream : fd.stream = printNumber 16 width n ++ c :: rest) :
    ∃ fd', readHex fd = some (c, n, fd') ∧ fd'.stream = rest ∧ fd'.Flowing :=
  readNumber_print (by decide) (fun _ => hexDigit_digitChar) hn hc h hstream

theorem readHexField_print {width n : Nat} (hn : n < wordSize) {sep : UInt8}
    (hsep : hexDigit sep = none) {rest : List UInt8} {fd : InFile} (h : fd.Flowing)
    (hstream : fd.stream = printNumber 16 width n ++ sep :: rest) :
    ∃ fd', readHexField sep fd = .ok (n, fd') ∧ fd'.stream = rest ∧ fd'.Flowing := by
  rcases readHex_print hn hsep h hstream with ⟨fd', hread, hrest⟩
  exact ⟨fd', by simp [readHexField, hread], hrest⟩

theorem readFlag_print (b : Bool) (yes no : Char) {rest : List UInt8} {fd : InFile} (h : fd.Flowing)
    (hstream : fd.stream = MapsEntry.flagChar b yes no :: rest) :
    ∃ fd', readFlag (chr yes) (chr no) fd = .ok (MapsEntry.flagChar b yes no, fd') ∧
      fd'.stream = rest ∧ fd'.Flowing := by
  rcases readChar_cons h hstream with ⟨fd', hread, hrest⟩
  refine ⟨fd', ?_, hrest⟩
  cases b <;> simp [readFlag, hread, MapsEntry.flagChar]

/-- The spaces are skipped up to the character behind them. -/
theorem skipSpaces_spec {pad fuel : Nat} (hfuel : pad ≤ fuel) {d : UInt8} (hd : d ≠ chr ' ')
    {c : UInt8} {fd : InFile} {rest : List UInt8} (h : fd.Flowing)
    (hstream : c :: fd.stream = List.replicate pad (chr ' ') ++ d :: rest) :
    ∃ fd', skipSpaces fuel c fd = some (d, fd') ∧ fd'.stream = rest ∧ fd'.Flowing := by
  induction pad generalizing fuel c fd with
  | zero =>
      obtain ⟨rfl, hrest⟩ : c = d ∧ fd.stream = rest := by simpa using hstream
      exact ⟨fd, by cases fuel <;> simp [skipSpaces, hd], hrest, h⟩
  | succ pad ih =>
      obtain ⟨rfl, hrest⟩ : c = chr ' ' ∧
          fd.stream = List.replicate pad (chr ' ') ++ d :: rest := by
        simpa [List.replicate_succ] using hstream
      cases fuel with
      | zero => exact absurd hfuel (Nat.not_succ_le_zero _)
      | succ fuel =>
          obtain ⟨c', rest', hnext⟩ : ∃ c' rest', fd.stream = c' :: rest' := by
            rw [hrest]
            cases pad with
            | zero => exact ⟨d, rest, rfl⟩
            | succ pad => exact ⟨_, _, rfl⟩
          rcases readChar_cons h hnext with ⟨fd₁, hread, hstream₁, hflow₁⟩
          have hstream₁' : c' :: fd₁.stream = List.replicate pad (chr ' ') ++ d :: rest := by
            rw [hstream₁, ← hnext, hrest]
          rcases ih (Nat.le_of_succ_le_succ hfuel) hflow₁ hstream₁' with ⟨fd', hskip, hdone⟩
          exact ⟨fd', by simpa [skipSpaces, hread] using hskip, hdone⟩

/-- A name that leaves room for the terminator is stored whole. -/
theorem readName_spec {more : List UInt8} (hmore : chr '\n' ∉ more) {fuel : Nat}
    (hfuel : more.length < fuel) {name : List UInt8} {c : UInt8}
    (hroom : name.length + more.length + 1 < fileNameSize) {fd : InFile} {rest : List UInt8}
    (h : fd.Flowing) (hstream : fd.stream = more ++ chr '\n' :: rest) :
    ∃ fd', readName fuel name c fd = .ok (name ++ c :: more, chr '\n', fd') ∧
      fd'.stream = rest ∧ fd'.Flowing := by
  induction more generalizing fuel name c fd with
  | nil =>
      cases fuel with
      | zero => exact absurd hfuel (Nat.not_lt_zero _)
      | succ fuel =>
          have hlen : name.length + 1 ≠ fileNameSize := Nat.ne_of_lt hroom
          rcases readChar_cons h hstream with ⟨fd', hread, hrest⟩
          exact ⟨fd', by simp [readName, hlen, hread], hrest⟩
  | cons d more ih =>
      cases fuel with
      | zero => exact absurd hfuel (Nat.not_lt_zero _)
      | succ fuel =>
          obtain ⟨hd, hmore'⟩ : chr '\n' ≠ d ∧ chr '\n' ∉ more := by simpa using hmore
          rw [List.length_cons] at hroom
          have hlen : name.length + 1 ≠ fileNameSize := by omega
          have hroom' : (name ++ [c]).length + more.length + 1 < fileNameSize := by
            rw [List.length_append, List.length_singleton]
            omega
          rcases readChar_cons h hstream with ⟨fd₁, hread, hstream₁, hflow₁⟩
          rcases @ih hmore' fuel (Nat.lt_of_succ_lt_succ hfuel) (name ++ [c]) d hroom' fd₁ hflow₁
            hstream₁ with ⟨fd', hname, hrest⟩
          exact ⟨fd', by simpa [readName, hlen, hread, hd.symm] using hname, hrest⟩

/-- The character behind the spaces: the first one of the name, or the end of the line. -/
theorem MapsEntry.name_cases (e : MapsEntry) (rest : List UInt8) :
    ∃ d more, e.name ++ chr '\n' :: rest = d :: more ∧ decDigit d = none ∧ d ≠ chr ' ' ∧
      ((e.name = [] ∧ d = chr '\n' ∧ more = rest) ∨
        ((d = chr '/' ∨ d = chr '[') ∧ ∃ name, e.name = d :: name ∧
          more = name ++ chr '\n' :: rest)) := by
  cases hname : e.name with
  | nil => exact ⟨chr '\n', rest, rfl, by decide, by decide, Or.inl ⟨rfl, rfl, rfl⟩⟩
  | cons d name =>
      have hd : d = chr '/' ∨ d = chr '[' := by simpa [hname] using e.name_head
      refine ⟨d, name ++ chr '\n' :: rest, rfl, ?_, ?_, Or.inr ⟨hd, name, rfl, rfl⟩⟩
      · rcases hd with rfl | rfl <;> decide
      · rcases hd with rfl | rfl <;> decide

theorem readNameField_print (e : MapsEntry) {c : UInt8} {fd : InFile} (h : fd.Flowing)
    {rest : List UInt8} (hstream : e.name ++ chr '\n' :: rest = c :: fd.stream) :
    ∃ fd', readNameField c fd = .ok (e.name, chr '\n', fd') ∧ fd'.stream = rest ∧ fd'.Flowing := by
  rcases e.name_cases rest with ⟨d, more, hmore, _, _, hcases⟩
  obtain ⟨rfl, rfl⟩ : d = c ∧ more = fd.stream := by simpa [hmore] using hstream
  rcases hcases with ⟨hnone, rfl, hrest⟩ | ⟨hd, name, hname, hrest⟩
  · exact ⟨fd, by rw [hnone]; rfl, hrest, h⟩
  · have hline : chr '\n' ∉ name := fun hmem => e.name_newline (by simp [hname, hmem])
    have hlength := e.name_length
    rw [hname, List.length_cons] at hlength
    have hroom : ([] : List UInt8).length + name.length + 1 < fileNameSize := by
      simpa using hlength
    have hfuel : name.length < fd.replies.length + 1 := by
      have henough := h.enough
      have hreplies := strength_le_length fd.replies
      rw [hrest, List.length_append] at henough
      omega
    rcases @readName_spec name hline _ hfuel [] d hroom fd rest h hrest with ⟨fd', hread, hdone⟩
    exact ⟨fd', by rw [readNameField, if_pos hd, hread, hname, List.nil_append], hdone⟩

theorem MapsEntry.flagChar_eq_iff {b : Bool} {yes no : Char} (h : chr no ≠ chr yes) :
    MapsEntry.flagChar b yes no = chr yes ↔ b = true := by
  cases b <;> simp [flagChar, h]

theorem fillArea_print (e : MapsEntry) (area : Area) :
    fillArea area e.startaddr e.endaddr (MapsEntry.flagChar e.r 'r' '-')
      (MapsEntry.flagChar e.w 'w' '-') (MapsEntry.flagChar e.x 'x' '-')
      (MapsEntry.flagChar e.shared 's' 'p') e.offset e.devmajor e.devminor e.inodenum e.name =
      e.area area.properties := by
  have htake : e.name.takeWhile (· ≠ 0) = e.name := by
    refine List.takeWhile_eq_self_iff.2 fun b hb => ?_
    have hne : b ≠ 0 := fun hzero => e.name_nul (hzero ▸ hb)
    simpa using hne
  have hr := @MapsEntry.flagChar_eq_iff e.r 'r' '-' (by decide)
  have hw := @MapsEntry.flagChar_eq_iff e.w 'w' '-' (by decide)
  have hx := @MapsEntry.flagChar_eq_iff e.x 'x' '-' (by decide)
  have hs := @MapsEntry.flagChar_eq_iff e.shared 's' 'p' (by decide)
  have hp : MapsEntry.flagChar e.shared 's' 'p' = chr 'p' ↔ e.shared = false := by
    cases e.shared <;> decide
  simp only [fillArea, htake, hr, hw, hx, hs, hp, MapsEntry.area]
  congr 1
  · cases e.r <;> cases e.w <;> cases e.x <;> rfl
  · by_cases hname : e.name = [] <;> cases e.shared <;> simp [hname]

/-- A call reads one printed line: it returns 1 with the area of the entry and leaves the stream behind
the line. -/
theorem readMapsLine_line (e : MapsEntry) (pad : Nat) (area : Area) {fd : InFile} (h : fd.Flowing)
    {rest : List UInt8} (hstream : fd.stream = e.line pad ++ rest) :
    ∃ fd', readMapsLine fd area = .ok (1, e.area area.properties, fd') ∧ fd'.stream = rest ∧
      fd'.Flowing := by
  simp only [MapsEntry.line, List.append_assoc, List.cons_append, List.nil_append] at hstream
  have hstart := lt_of_le_of_lt e.ordered e.endaddr_lt
  rcases readHex_print hstart (by decide) h hstream with ⟨f₁, h₁, hs, hf⟩
  rcases readHex_print e.endaddr_lt (by decide) hf hs with ⟨f₂, h₂, hs, hf⟩
  rcases readFlag_print e.r 'r' '-' hf hs with ⟨f₃, h₃, hs, hf⟩
  rcases readFlag_print e.w 'w' '-' hf hs with ⟨f₄, h₄, hs, hf⟩
  rcases readFlag_print e.x 'x' '-' hf hs with ⟨f₅, h₅, hs, hf⟩
  rcases readFlag_print e.shared 's' 'p' hf hs with ⟨f₆, h₆, hs, hf⟩
  rcases readChar_cons hf hs with ⟨f₇, h₇, hs, hf⟩
  rcases readHexField_print e.offset_lt (by decide) hf hs with ⟨f₈, h₈, hs, hf⟩
  rcases readHexField_print e.devmajor_lt (by decide) hf hs with ⟨f₉, h₉, hs, hf⟩
  rcases readHexField_print e.devminor_lt (by decide) hf hs with ⟨f₁₀, h₁₀, hs, hf⟩
  rcases e.name_cases rest with ⟨d, more, hname, hdigit, hspace, _⟩
  rw [hname] at hs
  -- the inode ends at the first space, or at the name if there is none
  obtain ⟨c, tail, htail, hc⟩ : ∃ c tail,
      List.replicate pad (chr ' ') ++ d :: more = c :: tail ∧ decDigit c = none := by
    cases pad with
    | zero => exact ⟨d, more, rfl, hdigit⟩
    | succ pad => exact ⟨chr ' ', _, rfl, by decide⟩
  rw [htail] at hs
  rcases readNumber_print (by decide) (fun _ => decDigit_digitChar) e.inodenum_lt hc hf hs with
    ⟨f₁₁, hdec, hs, hf⟩
  have h₁₁ : readDec f₁₀ = some (c, e.inodenum, f₁₁) := hdec
  have hpad : pad ≤ f₁₁.replies.length := by
    have henough := hf.enough
    have hreplies := strength_le_length f₁₁.replies
    have hlen := congrArg List.length htail
    simp only [List.length_append, List.length_replicate, List.length_cons] at hlen
    rw [hs] at henough
    omega
  rcases skipSpaces_spec hpad hspace hf (by rw [hs, htail]) with ⟨f₁₂, h₁₂, hs, hf⟩
  rcases readNameField_print e hf (by rw [hname, hs]) with ⟨f₁₃, h₁₃, hs, hf⟩
  refine ⟨f₁₃, ?_, hs, hf⟩
  have hordered : ¬ e.endaddr < e.startaddr := Nat.not_lt.2 e.ordered
  simp [readMapsLine, h₁, h₂, h₃, h₄, h₅, h₆, h₇, h₈, h₉, h₁₀, h₁₁, h₁₂, h₁₃, hordered,
    fillArea_print]

theorem readMapsLine_end (area : Area) {fd : InFile} (h : fd.Flowing) (hend : fd.stream = []) :
    ∃ fd', readMapsLine fd area = .ok (0, area, fd') := by
  rcases fd with ⟨stream, replies⟩
  obtain rfl : stream = [] := hend
  rcases readCharLoop_nil h with ⟨replies', hread⟩
  have hchar : readChar ⟨[], replies⟩ = some (0, ⟨[], replies'⟩) := hread
  have hzero : hexDigit 0 = none := by decide
  have hhex : readHex ⟨[], replies⟩ = some (0, 0, ⟨[], replies'⟩) := by
    simp [readHex, readNumber, readNumberLoop, hchar, hzero]
  have hdash : (0 : UInt8) ≠ chr '-' := by decide
  exact ⟨⟨[], replies'⟩, by simp [readMapsLine, hhex, hdash]⟩

/-! ## The whole file -/

/-- A maps file: one line for each entry, each with its own number of spaces. -/
def printMaps (entries : List (MapsEntry × Nat)) : List UInt8 :=
  entries.flatMap fun p => p.1.line p.2

/-- Successive calls, all with the same `Area`: each returns 1 with the area of the next entry and takes
its line from the stream, and the one after the last returns 0. -/
def ReadsLines : List (MapsEntry × Nat) → Area → InFile → Prop
  | [], area, fd => ∃ fd', readMapsLine fd area = .ok (0, area, fd')
  | (e, pad) :: entries, area, fd =>
      fd.stream = e.line pad ++ printMaps entries ∧
        ∃ fd', readMapsLine fd area = .ok (1, e.area area.properties, fd') ∧
          fd'.stream = printMaps entries ∧ ReadsLines entries (e.area area.properties) fd'

/-- Successive calls get back exactly what the kernel printed. -/
theorem readsLines (entries : List (MapsEntry × Nat)) (area : Area) {fd : InFile} (h : fd.Flowing)
    (hstream : fd.stream = printMaps entries) : ReadsLines entries area fd := by
  induction entries generalizing area fd with
  | nil => exact readMapsLine_end area h hstream
  | cons p entries ih =>
      rcases p with ⟨e, pad⟩
      have hline : fd.stream = e.line pad ++ printMaps entries := hstream
      rcases readMapsLine_line e pad area h hline with ⟨fd', hread, hrest, hflow⟩
      exact ⟨hline, fd', hread, hrest, ih _ hflow hrest⟩

/-- The loop around `readMapsLine` of its callers: the areas it yields. -/
def readMaps : Nat → Area → InFile → Exec (List Area)
  | 0, _, _ => .running
  | fuel + 1, area, fd => do
      let (rc, area, fd) ← readMapsLine fd area
      if rc = 0 then pure []
      else do
        let areas ← readMaps fuel area fd
        pure (area :: areas)

/-- The loop yields the area of every entry the kernel printed. -/
theorem readMaps_printMaps (entries : List (MapsEntry × Nat)) (area : Area) {fd : InFile}
    (h : fd.Flowing) (hstream : fd.stream = printMaps entries) {fuel : Nat}
    (hfuel : entries.length < fuel) :
    readMaps fuel area fd = .ok (entries.map fun p => p.1.area area.properties) := by
  induction entries generalizing area fd fuel with
  | nil =>
      cases fuel with
      | zero => exact absurd hfuel (Nat.not_lt_zero _)
      | succ fuel =>
          rcases readMapsLine_end area h hstream with ⟨fd', hread⟩
          simp [readMaps, hread]
  | cons p entries ih =>
      rcases p with ⟨e, pad⟩
      cases fuel with
      | zero => exact absurd hfuel (Nat.not_lt_zero _)
      | succ fuel =>
          -- `properties` is the one field that a line does not set, and every area keeps it
          rcases readMapsLine_line e pad area h hstream with ⟨fd', hread, hrest, hflow⟩
          have hareas := ih (e.area area.properties) hflow hrest (Nat.lt_of_succ_lt_succ hfuel)
          simp only [readMaps, hread, Exec.ok_bind, hareas]
          rfl

/-- A maps file of whole pages in which no two entries overlap: its areas. -/
def MapsSnapshot.ofEntries (entries : List MapsEntry)
    (haligned : ∀ e ∈ entries, PageAligned e.startaddr ∧ PageAligned e.endaddr)
    (hdis : entries.Pairwise fun e e' => Disjoint (e.area 0).range (e'.area 0).range) :
    MapsSnapshot where
  areas := entries.map fun e => e.area 0
  fits := by
    intro a ha
    rcases List.mem_map.1 ha with ⟨e, _, rfl⟩
    exact e.area_fits (by decide)
  ordered := by
    intro a ha
    rcases List.mem_map.1 ha with ⟨e, _, rfl⟩
    exact e.ordered
  sized := by
    intro a ha
    rcases List.mem_map.1 ha with ⟨e, _, rfl⟩
    rfl
  aligned := by
    intro a ha
    rcases List.mem_map.1 ha with ⟨e, he, rfl⟩
    exact haligned e he
  disjoint := List.pairwise_map.2 hdis

/-- A snapshot is what one reading of the maps file yields. -/
theorem readMaps_snapshot {entries : List (MapsEntry × Nat)}
    (haligned : ∀ e ∈ entries.map Prod.fst, PageAligned e.startaddr ∧ PageAligned e.endaddr)
    (hdis : (entries.map Prod.fst).Pairwise fun e e' =>
      Disjoint (e.area 0).range (e'.area 0).range)
    {area : Area} (harea : area.properties = 0) {fd : InFile} (h : fd.Flowing)
    (hstream : fd.stream = printMaps entries) :
    readMaps (entries.length + 1) area fd =
      .ok (MapsSnapshot.ofEntries (entries.map Prod.fst) haligned hdis).areas := by
  rw [readMaps_printMaps entries area h hstream (Nat.lt_succ_self _), harea]
  simp [MapsSnapshot.ofEntries]

/-- The heap, and a library with a space in its path. -/
def twoEntries : List (MapsEntry × Nat) :=
  [({ startaddr := 0x10000
      endaddr := 0x12000
      r := true
      w := true
      x := false
      shared := false
      offset := 0
      devmajor := 0
      devminor := 0
      inodenum := 0
      name := cstr ['[', 'h', 'e', 'a', 'p', ']'] }, 18),
   ({ startaddr := 0x7f0000000000
      endaddr := 0x7f0000001000
      r := true
      w := false
      x := true
      shared := true
      offset := 0x2000
      devmajor := 8
      devminor := 1
      inodenum := 1234
      name := cstr ['/', 'm', 'y', ' ', 'l', 'i', 'b'] }, 0)]

theorem flowing_byteReads (content : List UInt8) :
    (⟨content, .error .EINTR :: byteReads content⟩ : InFile).Flowing where
  prompt := by
    intro q hq
    rcases List.mem_cons.1 hq with rfl | hq
    · rfl
    · rcases List.mem_map.1 hq with ⟨k, hk, rfl⟩
      rw [List.eq_of_mem_replicate hk]
      exact Nat.one_pos
  enough := (ready_byteReads content).enough

/-- Read into a zeroed area, with an interrupted call first. -/
theorem readsLines_two :
    ReadsLines twoEntries (decodeArea [])
      ⟨printMaps twoEntries, .error .EINTR :: byteReads (printMaps twoEntries)⟩ :=
  readsLines twoEntries (decodeArea []) (flowing_byteReads _) rfl

end CkptRestart
