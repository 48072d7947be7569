import CkptRestart.Common
import CkptRestart.Lib.Bytes
import CkptRestart.Lib.Transfer

/-!
# Utils — `writeAll` and `readAll`

The two loops of `utils.c` that move a whole block through a file descriptor.  The results of the
`write` and `read` calls are a finite schedule; a loop that is still running when the schedule ends
has no result.  The two loops have different shapes: `writeAll` is a do-while that calls `write` at
least once and tests its condition again after `continue`, `readAll` tests before every call.

`writeAll_eq` and `readAll_eq` bring both down to the drive of `Lib.Transfer`.
-/

namespace CkptRestart

open Lib

def retries (e : Errno) : Bool :=
  decide (e = .EINTR) || decide (e = .EAGAIN)

/-! ## Writing -/

/-- A descriptor open for writing: the contents of its file, its offset, and the results that the
coming `write` calls on it will have. -/
structure OutFile where
  content : List UInt8
  offset : Nat
  replies : List (Reply Errno)

/-- The loop of `writeAll`, with `rest` for the bytes from `ptr + num_written` on. -/
def writeLoop (content : List UInt8) (offset : Nat) (rest : List UInt8) (numWritten : Nat) :
    List (Reply Errno) → Option (Int × OutFile)
  | [] => none
  | .error e :: replies =>
      if retries e then
        -- `continue` goes to the test of the do-while
        if rest.isEmpty then some (toSigned numWritten, ⟨content, offset, replies⟩)
        else writeLoop content offset rest numWritten replies
      else some (-1, ⟨content, offset, replies⟩)
  | .moved k :: replies =>
      let rc := min k rest.length
      -- zero bytes written end the loop without an error
      if rc = 0 then some (toSigned numWritten, ⟨content, offset, replies⟩)
      else
        let content' := overwrite 0 content offset (rest.take rc)
        if (rest.drop rc).isEmpty then
          some (toSigned (numWritten + rc), ⟨content', offset + rc, replies⟩)
        else writeLoop content' (offset + rc) (rest.drop rc) (numWritten + rc) replies

/-- `writeAll`: its return value and the descriptor after it. -/
def writeAll (buf : List UInt8) (out : OutFile) : Option (Int × OutFile) :=
  writeLoop out.content out.offset buf 0 out.replies

/-- What a finished drive leaves of a write that had `done` bytes behind it. -/
def writeResult (content : List UInt8) (offset : Nat) (rest : List UInt8) (done : Nat)
    (p : Progress Errno) : Int × OutFile :=
  (match p.ending with
    | .failed _ => -1
    | _ => toSigned (done + p.moved),
    ⟨overwrite 0 content offset (rest.take p.moved), offset + p.moved, p.rest⟩)

/-- A first piece and what the rest of the loop does make up one write of both. -/
theorem writeResult_add {rest : List UInt8} {k : Nat} (hk : k ≤ rest.length)
    (content : List UInt8) (offset done : Nat) (p : Progress Errno) :
    writeResult (overwrite 0 content offset (rest.take k)) (offset + k) (rest.drop k) (done + k) p =
      writeResult content offset rest done (p.add k) := by
  have hjoin := overwrite_overwrite (0 : UInt8) content (rest.take k)
    ((rest.drop k).take p.moved) offset
  rw [List.length_take_of_le hk, ← List.take_add] at hjoin
  simp only [writeResult, Progress.add_moved, Progress.add_ending, Progress.add_rest, hjoin,
    Nat.add_assoc, Nat.add_comm p.moved]

theorem writeLoop_eq (content : List UInt8) (offset : Nat) (rest : List UInt8) (done : Nat)
    (replies : List (Reply Errno)) :
    writeLoop content offset rest done replies =
      (driveOnce retries replies rest.length).map (writeResult content offset rest done) := by
  induction replies generalizing content offset rest done with
  | nil =>
      cases rest with
      | nil => rfl
      | cons b rest => simp [writeLoop, drive]
  | cons r replies ih =>
      cases rest with
      | nil =>
          -- the do-while has called `write` before it finds that nothing is wanted
          cases r with
          | error e =>
              by_cases he : retries e = true <;>
                simp [writeLoop, driveOnce, writeResult, he]
          | moved k => simp [writeLoop, driveOnce, writeResult]
      | cons b rest =>
          cases r with
          | error e =>
              by_cases he : retries e = true
              · have hrec := ih content offset (b :: rest) done
                simpa [writeLoop, drive, he] using hrec
              · simp [writeLoop, drive, writeResult, he]
          | moved k =>
              cases hm : min k (rest.length + 1) with
              | zero => simp [writeLoop, drive, writeResult, hm]
              | succ m =>
                  have hle : m + 1 ≤ (b :: rest).length := by
                    simp only [List.length_cons]
                    omega
                  have hrest : ((b :: rest).drop (m + 1)).length = rest.length - m := by
                    simp
                  by_cases hend : (rest.drop m).isEmpty = true
                  · have hzero : rest.length - m = 0 := by
                      have := List.isEmpty_iff.1 hend
                      have := congrArg List.length this
                      simpa using this
                    simp [writeLoop, drive, writeResult, hm, hend, hzero]
                  · -- something is left, so going on with `driveOnce` is going on with `drive`
                    have hpos : 0 < ((b :: rest).drop (m + 1)).length := by
                      rw [List.length_pos_iff]
                      simpa using hend
                    have hrec := ih (overwrite 0 content offset ((b :: rest).take (m + 1)))
                      (offset + (m + 1)) ((b :: rest).drop (m + 1)) (done + (m + 1))
                    rw [driveOnce_of_pos retries hpos, hrest] at hrec
                    calc writeLoop content offset (b :: rest) done (.moved k :: replies)
                        = writeLoop (overwrite 0 content offset ((b :: rest).take (m + 1)))
                            (offset + (m + 1)) ((b :: rest).drop (m + 1)) (done + (m + 1))
                            replies := by
                          simp [writeLoop, hm, hend]
                      _ = (drive retries replies (rest.length - m) (rest.length - m)).map
                            (writeResult content offset (b :: rest) done ∘ Progress.add (m + 1)) := by
                          rw [hrec]
                          congr 1
                          funext p
                          exact writeResult_add hle content offset done p
                      _ = _ := by
                          simp [drive, hm, Option.map_map]

theorem writeAll_eq (buf : List UInt8) (out : OutFile) :
    writeAll buf out =
      (driveOnce retries out.replies buf.length).map
        (writeResult out.content out.offset buf 0) :=
  writeLoop_eq out.content out.offset buf 0 out.replies

/-! ## Reading -/

/-- A descriptor open for reading: the bytes from its offset on, and the results that the coming
`read` calls on it will have. -/
structure InFile where
  stream : List UInt8
  replies : List (Reply Errno)

/-- What `readAll` returns, the bytes it stored from `buf` on, and the descriptor after it. -/
structure ReadOut where
  ret : Int
  data : List UInt8
  file : InFile

/-- The loop of `readAll`: `want` is `count - num_read`, `got` the bytes stored so far. -/
def readLoop : List (Reply Errno) → List UInt8 → Nat → List UInt8 → Option ReadOut
  | replies, stream, 0, got => some ⟨toSigned got.length, got, ⟨stream, replies⟩⟩
  | [], _, _ + 1, _ => none
  | .error e :: replies, stream, want + 1, got =>
      if retries e then readLoop replies stream (want + 1) got
      else some ⟨-1, got, ⟨stream, replies⟩⟩
  | .moved k :: replies, stream, want + 1, got =>
      let rc := min k (min (want + 1) stream.length)
      -- so does the end of the file
      if rc = 0 then some ⟨toSigned got.length, got, ⟨stream, replies⟩⟩
      else readLoop replies (stream.drop rc) (want + 1 - rc) (got ++ stream.take rc)

def readAll (file : InFile) (count : Nat) : Option ReadOut :=
  readLoop file.replies file.stream count []

/-- What a finished drive leaves of a read that had stored `got` before. -/
def readResult (stream got : List UInt8) (p : Progress Errno) : ReadOut where
  ret := match p.ending with
    | .failed _ => -1
    | _ => toSigned (got.length + p.moved)
  data := got ++ stream.take p.moved
  file := ⟨stream.drop p.moved, p.rest⟩

/-- A first piece and what the rest of the loop gets make up one read of both. -/
theorem readResult_add {stream : List UInt8} {k : Nat} (hk : k ≤ stream.length)
    (got : List UInt8) (p : Progress Errno) :
    readResult (stream.drop k) (got ++ stream.take k) p = readResult stream got (p.add k) := by
  have hlen : (got ++ stream.take k).length = got.length + k := by
    rw [List.length_append, List.length_take_of_le hk]
  simp only [readResult, Progress.add_moved, Progress.add_ending, Progress.add_rest, hlen,
    List.append_assoc, ← List.take_add, List.drop_drop, Nat.add_assoc, Nat.add_comm p.moved]

theorem readLoop_eq (replies : List (Reply Errno)) (stream : List UInt8) (want : Nat)
    (got : List UInt8) :
    readLoop replies stream want got =
      (drive retries replies want stream.length).map (readResult stream got) := by
  induction replies generalizing stream want got with
  | nil => cases want <;> simp [readLoop, drive, readResult]
  | cons r replies ih =>
      cases want with
      | zero => simp [readLoop, readResult]
      | succ want =>
          cases r with
          | error e =>
              by_cases he : retries e = true
              · simpa [readLoop, drive, he] using ih stream (want + 1) got
              · simp [readLoop, drive, readResult, he]
          | moved k =>
              cases hm : min k (min (want + 1) stream.length) with
              | zero => simp [readLoop, drive, readResult, hm]
              | succ m =>
                  have hle : m + 1 ≤ stream.length := by omega
                  have hrec := ih (stream.drop (m + 1)) (want - m) (got ++ stream.take (m + 1))
                  rw [List.length_drop] at hrec
                  calc readLoop (.moved k :: replies) stream (want + 1) got
                      = readLoop replies (stream.drop (m + 1)) (want - m)
                          (got ++ stream.take (m + 1)) := by
                        simp [readLoop, hm]
                    _ = (drive retries replies (want - m) (stream.length - (m + 1))).map
                          (readResult stream got ∘ Progress.add (m + 1)) := by
                        rw [hrec]
                        congr 1
                        funext p
                        exact readResult_add hle got p
                    _ = _ := by
                        simp [drive, hm, Option.map_map]

theorem readAll_eq (file : InFile) (count : Nat) :
    readAll file count =
      (drive retries file.replies count file.stream.length).map (readResult file.stream []) :=
  readLoop_eq file.replies file.stream count []

/-- A read of at least one byte makes at least one call. -/
theorem readAll_replies_lt {file : InFile} {count : Nat} {out : ReadOut} (hpos : 0 < count)
    (h : readAll file count = some out) : out.file.replies.length < file.replies.length := by
  rw [readAll_eq] at h
  rcases Option.map_eq_some_iff.1 h with ⟨p, hp, rfl⟩
  exact (drive_driven retries hp).rest_shorter hpos

/-- No more is stored than was asked for. -/
theorem length_data_readAll_le {file : InFile} {count : Nat} {out : ReadOut}
    (h : readAll file count = some out) : out.data.length ≤ count := by
  rw [readAll_eq] at h
  rcases Option.map_eq_some_iff.1 h with ⟨p, hp, rfl⟩
  have hmoved := (drive_driven retries hp).moved_le_want
  simp only [readResult, List.nil_append, List.length_take]
  omega

/-- The coming reads may be short or interrupted, but there are enough of them for every byte of the
file and for its end. -/
structure InFile.Ready (file : InFile) : Prop where
  prompt : ∀ r ∈ file.replies, Prompt retries r
  enough : file.stream.length < strength file.replies

/-- The same with `n` reads to spare. -/
structure InFile.Spare (file : InFile) (n : Nat) : Prop where
  prompt : ∀ r ∈ file.replies, Prompt retries r
  enough : file.stream.length + n < strength file.replies

theorem InFile.ready_iff_spare {file : InFile} : file.Ready ↔ file.Spare 0 :=
  ⟨fun h => ⟨h.prompt, h.enough⟩, fun h => ⟨h.prompt, h.enough⟩⟩

/-- A read of bytes that are there gets them all. -/
theorem InFile.Spare.readAll {file : InFile} {n : Nat} (h : file.Spare n) {count : Nat}
    (hcount : count ≤ file.stream.length) :
    ∃ file', CkptRestart.readAll file count =
        some ⟨toSigned count, file.stream.take count, file'⟩ ∧
      file'.stream = file.stream.drop count ∧ file'.Spare n := by
  have henough := h.enough
  have hlen : count ≤ strength file.replies := by omega
  rcases drive_prompt retries h.prompt hcount hlen with ⟨p, hp, hmoved, hfull, hstrength⟩
  have hsuffix := (drive_driven retries hp).rest_suffix
  refine ⟨⟨file.stream.drop count, p.rest⟩, ?_, rfl, ?_, ?_⟩
  · simp [readAll_eq, hp, readResult, hfull, hmoved]
  · intro r hr
    exact h.prompt r (hsuffix.mem hr)
  · simp only [List.length_drop]
    omega

/-- A read of exactly what stands at the front of the stream gets it and leaves the rest. -/
theorem InFile.Spare.readAll_front {file : InFile} {n : Nat} (h : file.Spare n)
    {front rest : List UInt8} (hstream : file.stream = front ++ rest) {count : Nat}
    (hcount : front.length = count) :
    ∃ file', CkptRestart.readAll file count = some ⟨toSigned count, front, file'⟩ ∧
      file'.stream = rest ∧ file'.Spare n := by
  have hthere : count ≤ file.stream.length := by
    rw [hstream, List.length_append, hcount]
    exact Nat.le_add_right _ _
  rcases h.readAll hthere with ⟨file', hread, hdrop, hspare⟩
  rw [hstream, List.take_left' hcount] at hread
  rw [hstream, List.drop_left' hcount] at hdrop
  exact ⟨file', hread, hdrop, hspare⟩

/-- A read of more bytes than are there gets those, and takes one read more to see the end. -/
theorem InFile.Spare.readAll_short {file : InFile} {n : Nat} (h : file.Spare n) {count : Nat}
    (hcount : file.stream.length < count) :
    ∃ replies, CkptRestart.readAll file count =
        some ⟨toSigned file.stream.length, file.stream, ⟨[], replies⟩⟩ ∧
      (∀ m, n = m + 1 → (⟨[], replies⟩ : InFile).Spare m) := by
  have henough := h.enough
  have hlen : file.stream.length < strength file.replies := by omega
  rcases drive_prompt_short retries h.prompt hcount hlen with ⟨p, hp, hmoved, hstop, hstrength⟩
  have hsuffix := (drive_driven retries hp).rest_suffix
  refine ⟨p.rest, by simp [readAll_eq, hp, readResult, hstop, hmoved], ?_⟩
  rintro m rfl
  refine ⟨fun r hr => h.prompt r (hsuffix.mem hr), ?_⟩
  show 0 + m < strength p.rest
  omega

theorem InFile.Ready.readAll_front {file : InFile} (h : file.Ready) {front rest : List UInt8}
    (hstream : file.stream = front ++ rest) {count : Nat} (hcount : front.length = count) :
    ∃ file', CkptRestart.readAll file count = some ⟨toSigned count, front, file'⟩ ∧
      file'.stream = rest ∧ file'.Ready := by
  simpa only [InFile.ready_iff_spare] using
    (InFile.ready_iff_spare.1 h).readAll_front hstream hcount

/-- A read at the end of the file returns zero. -/
theorem InFile.Ready.readAll_end {file : InFile} (h : file.Ready) (hend : file.stream = [])
    (count : Nat) :
    ∃ file', CkptRestart.readAll file (count + 1) = some ⟨0, [], file'⟩ := by
  have hcount : file.stream.length < count + 1 := by
    rw [hend]
    exact Nat.succ_pos count
  rcases (InFile.ready_iff_spare.1 h).readAll_short hcount with ⟨replies, hread, _⟩
  have hzero : toSigned 0 = 0 := by decide
  exact ⟨⟨[], replies⟩, by simpa [hend, hzero] using hread⟩

/-- Reads of one byte each, one more than there are bytes. -/
def byteReads (content : List UInt8) : List (Reply Errno) :=
  (List.replicate (content.length + 1) 1).map .moved

theorem ready_byteReads (content : List UInt8) :
    (⟨content, byteReads content⟩ : InFile).Ready where
  prompt := by
    intro r hr
    rcases List.mem_map.1 hr with ⟨k, hk, rfl⟩
    rw [List.eq_of_mem_replicate hk]
    exact Nat.one_pos
  enough := by
    show content.length < strength (byteReads content)
    rw [byteReads, strength_moved, List.length_replicate]
    exact Nat.lt_succ_self _

/-- One read more sees the end twice. -/
theorem spare_byteReads (content : List UInt8) :
    (⟨content, .moved 1 :: byteReads content⟩ : InFile).Spare 1 where
  prompt := by
    intro r hr
    rcases List.mem_cons.1 hr with rfl | hr
    · exact Nat.one_pos
    · exact (ready_byteReads content).prompt r hr
  enough := Nat.succ_lt_succ (ready_byteReads content).enough

end CkptRestart
