import CkptRestart.Utils

/-!
# Chunks — what a transfer in pieces has moved

`writeAll` and `readAll` see only the results of their calls: short transfers, interruptions, results
of zero and other errors, in any order.  Whatever these are, the bytes that have passed when the loop
ends are a prefix of the bytes asked for, and the return value tells how long it is.  A buffer that
was written whole is therefore read back unchanged, however the two transfers were cut up.
-/

namespace CkptRestart

open Lib

/-! ## The results of the calls -/

/-- The results that the `write` calls of one `writeAll` have. -/
def writeResults (buf : List UInt8) (out : OutFile) : List (Reply Errno) :=
  resultsOnce retries out.replies buf.length

/-- The results that the `read` calls of one `readAll` have; at the end of the file they are zero. -/
def readResults (file : InFile) (count : Nat) : List (Reply Errno) :=
  results retries file.replies count file.stream.length

/-- What the return value `ret` of a transfer of `count` bytes tells, when calls with the results
`rs` have moved `n` of them. -/
structure Reports (rs : List (Reply Errno)) (count n : Nat) (ret : Int) : Prop where
  moved_le : n ≤ count
  moved_eq : n = total rs
  length_of_nonneg : 0 ≤ ret → ret = n
  count_of_nonneg : 0 ≤ ret → .moved 0 ∉ rs → n = count
  failed_iff : ret = -1 ↔ ∃ r ∈ rs, Fatal retries r

/-- The results of the calls account for the return value too. -/
theorem reports_of_accounts {sched rs : List (Reply Errno)} {count : Nat} {p : Progress Errno}
    {ret : Int} (haccounts : Accounts retries sched rs count p) (hle : p.moved ≤ count)
    (hcount : count + 1 < wordSize) (hfailed : ∀ e, p.ending = .failed e → ret = -1)
    (hended : (∀ e, p.ending ≠ .failed e) → ret = toSigned p.moved) :
    Reports rs count p.moved ret := by
  have hword : p.moved + 1 < wordSize := by omega
  by_cases hfatal : ∃ e, p.ending = .failed e
  · rcases hfatal with ⟨e, he⟩
    have hret : ret = -1 := hfailed e he
    have hneg : ¬ 0 ≤ ret := by omega
    exact ⟨hle, haccounts.moved, fun h => absurd h hneg, fun h => absurd h hneg,
      ⟨fun _ => haccounts.failed_iff.1 ⟨e, he⟩, fun _ => hret⟩⟩
  · have hret : ret = toSigned p.moved := hended (not_exists.1 hfatal)
    have hok : ¬ ∃ r ∈ rs, Fatal retries r := fun h => hfatal (haccounts.failed_iff.2 h)
    have hne : ret ≠ -1 := hret ▸ toSigned_ne_neg_one hword
    refine ⟨hle, haccounts.moved, ?_, fun _ => haccounts.whole hok,
      ⟨fun h => absurd h hne, fun h => absurd h hok⟩⟩
    intro hpos
    rw [hret] at hpos ⊢
    exact toSigned_of_nonneg (Nat.lt_of_succ_lt hword) hpos

/-! ## Writing -/

/-- The first `n` bytes of `buf` are in the file, from the old offset on, and nothing else is new. -/
structure Wrote (buf : List UInt8) (out : OutFile) (rc : Int) (out' : OutFile) (n : Nat) : Prop where
  reports : Reports (writeResults buf out) buf.length n rc
  content : out'.content = overwrite 0 out.content out.offset (buf.take n)
  appended : out.offset = out.content.length → out'.content = out.content ++ buf.take n
  offset : out'.offset = out.offset + n
  replies : out'.replies = out.replies.drop (writeResults buf out).length

theorem writeAll_wrote {buf : List UInt8} {out out' : OutFile} {rc : Int}
    (hcount : buf.length + 1 < wordSize) (h : writeAll buf out = some (rc, out')) :
    ∃ n, Wrote buf out rc out' n := by
  rw [writeAll_eq] at h
  rcases Option.map_eq_some_iff.1 h with ⟨p, hp, hres⟩
  have haccounts := resultsOnce_accounts retries hp
  obtain ⟨rfl, rfl⟩ : _ = rc ∧ _ = out' := Prod.mk.inj hres
  have happended (hend : out.offset = out.content.length) :
      overwrite 0 out.content out.offset (buf.take p.moved) = out.content ++ buf.take p.moved := by
    rw [hend, overwrite_end]
  refine ⟨p.moved, ?_, rfl, happended, rfl, haccounts.rest⟩
  refine reports_of_accounts haccounts (driveOnce_moved_le retries hp) hcount ?_ ?_
  · intro e he
    simp [he]
  · intro hend
    cases he : p.ending with
    | failed e => exact absurd he (hend e)
    | full => simp
    | stopped => simp

/-! ## Reading -/

/-- The first `n` bytes of the stream are in the buffer, and the rest is left. -/
structure Got (file : InFile) (count : Nat) (r : ReadOut) (n : Nat) : Prop where
  reports : Reports (readResults file count) count n r.ret
  there : n ≤ file.stream.length
  data : r.data = file.stream.take n
  stream : r.file.stream = file.stream.drop n
  replies : r.file.replies = file.replies.drop (readResults file count).length

theorem readAll_got {file : InFile} {count : Nat} {r : ReadOut}
    (hcount : count + 1 < wordSize) (h : readAll file count = some r) :
    ∃ n, Got file count r n := by
  rw [readAll_eq] at h
  rcases Option.map_eq_some_iff.1 h with ⟨p, hp, rfl⟩
  have haccounts := results_accounts retries hp
  have hdriven := drive_driven retries hp
  refine ⟨p.moved, ?_, hdriven.moved_le_avail, by simp [readResult], rfl, haccounts.rest⟩
  refine reports_of_accounts haccounts hdriven.moved_le_want hcount ?_ ?_
  · intro e he
    simp [readResult, he]
  · intro hend
    cases he : p.ending with
    | failed e => exact absurd he (hend e)
    | full => simp [readResult, he]
    | stopped => simp [readResult, he]

/-- A read that comes to its end without an error or a result of zero has got what stands first. -/
theorem Got.front {file : InFile} {count n : Nat} {r : ReadOut} (h : Got file count r n)
    {front rest : List UInt8} (hstream : file.stream = front ++ rest)
    (hcount : front.length = count) (hret : 0 ≤ r.ret)
    (hzero : .moved 0 ∉ readResults file count) : r.ret = count ∧ r.data = front := by
  obtain rfl : n = count := h.reports.count_of_nonneg hret hzero
  refine ⟨h.reports.length_of_nonneg hret, ?_⟩
  rw [h.data, hstream, List.take_left' hcount]

/-! ## Both together -/

/-- What was written of a buffer stands in the file from the old offset on. -/
theorem Wrote.stands {buf : List UInt8} {out out' : OutFile} {rc : Int} {n : Nat}
    (h : Wrote buf out rc out' n) :
    out'.content.drop out.offset = buf.take n ++ out.content.drop (out.offset + n) := by
  rw [h.content, drop_overwrite_front, List.length_take_of_le h.reports.moved_le]

/-- Transfers in pieces lose and repeat nothing.  A buffer lies above the null address and ends
inside the address space, so that it has fewer than `2 ^ 64 - 1` bytes. -/
theorem transfers_exact :
    (∀ (buf : List UInt8) (out out' : OutFile) (rc : Int), buf.length + 1 < wordSize →
      writeAll buf out = some (rc, out') → ∃ n, Wrote buf out rc out' n) ∧
    (∀ (file : InFile) (count : Nat) (r : ReadOut), count + 1 < wordSize →
      readAll file count = some r → ∃ n, Got file count r n) ∧
    (∀ (buf : List UInt8) (out out' : OutFile) (n : Nat) (file : InFile) (r : ReadOut),
      buf.length + 1 < wordSize → writeAll buf out = some ((n : Int), out') →
      file.stream = out'.content.drop out.offset → readAll file n = some r →
      0 ≤ r.ret → .moved 0 ∉ readResults file n →
      r.ret = n ∧ r.data = buf.take n) := by
  refine ⟨fun _ _ _ _ => writeAll_wrote, fun _ _ _ => readAll_got, ?_⟩
  intro buf out out' n file r hbuf hwrite hstream hread hret hzero
  rcases writeAll_wrote hbuf hwrite with ⟨m, hwrote⟩
  obtain rfl : n = m := by exact_mod_cast hwrote.reports.length_of_nonneg (Int.natCast_nonneg n)
  have hle : n ≤ buf.length := hwrote.reports.moved_le
  rcases readAll_got (by omega) hread with ⟨k, hgot⟩
  exact hgot.front (hstream.trans hwrote.stands) (List.length_take_of_le hle) hret hzero

/-- Three bytes written in two pieces and read back in two others. -/
theorem transfers_exact_threeBytes :
    (∃ n, Wrote [1, 2, 3] ⟨[9], 1, [.error .EINTR, .moved 2, .error .EAGAIN, .moved 5]⟩ 3
      ⟨[9, 1, 2, 3], 4, []⟩ n) ∧
    (∃ n, Got ⟨[1, 2, 3], [.moved 1, .error .EINTR, .moved 2]⟩ 3 ⟨3, [1, 2, 3], ⟨[], []⟩⟩ n) ∧
    (∃ r, readAll ⟨[1, 2, 3], [.moved 1, .error .EINTR, .moved 2]⟩ 3 = some r ∧
      r.ret = (3 : Nat) ∧ r.data = [1, 2, 3].take 3) :=
  have hwrite : writeAll [1, 2, 3] ⟨[9], 1, [.error .EINTR, .moved 2, .error .EAGAIN, .moved 5]⟩ =
      some (3, ⟨[9, 1, 2, 3], 4, []⟩) := rfl
  have hread : readAll ⟨[1, 2, 3], [.moved 1, .error .EINTR, .moved 2]⟩ 3 =
      some ⟨3, [1, 2, 3], ⟨[], []⟩⟩ := rfl
  ⟨transfers_exact.1 _ _ _ _ (by decide) hwrite, transfers_exact.2.1 _ _ _ (by decide) hread,
    _, hread, transfers_exact.2.2 _ _ _ 3 _ _ (by decide) hwrite rfl hread (by decide) (by decide)⟩

end CkptRestart
