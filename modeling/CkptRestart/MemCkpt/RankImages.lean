import CkptRestart.Lib.LastWrite
import CkptRestart.MemCkpt.Handler
import Mathlib.Data.Finset.Dedup
import Mathlib.Data.Finset.Insert

/-!
# RankImages — one image file for each rank

`installCkptHandler` builds the path of the image from the environment variable `RANK_ID`: between
two fixed strings it copies one byte of it.  All ranks run in one directory, so their images are
`Lib.LastWrite` writes whose keys are these paths.

`noImageLost_iff` says for which sets of ranks no rank overwrites the image of another.
-/

namespace CkptRestart

open Lib

/-! ## The path -/

def rankDir : List UInt8 := cstr ['.', '/', 'r', 'a', 'n', 'k', '_']

def ckptSuffix : List UInt8 := cstr ['_', 'c', 'k', 'p', 't', '.', 'i', 'm', 'g']

def ckptImgSize : Nat := 1024

/-- The string in the static array `ckpt_img` after the three copies of `installCkptHandler`; the
string `rankID` ends with a NUL, which is copied if it is empty. -/
def ckptImg (rankID : List UInt8) : List UInt8 :=
  let buf := overwrite 0 (List.replicate ckptImgSize 0) 0 rankDir
  let buf := overwrite 0 buf rankDir.length ((rankID ++ [0]).take 1)
  let buf := overwrite 0 buf (rankDir.length + 1) (ckptSuffix ++ [0])
  (getString ckptImgSize buf).1

/-- `installCkptHandler`: the path in `CKPT_IMG`. -/
def installCkptHandler (sigactionRc : Int) (rankID : Option (List UInt8)) : Exec (List UInt8) :=
  if sigactionRc < 0 then .exited
  else
    match rankID with
    -- the assertion fails
    | none => .exited
    | some rankID => pure (ckptImg rankID)

/-- The path is given by the first byte of the string. -/
theorem ckptImg_cons {b : UInt8} (hb : b ≠ 0) (rest : List UInt8) :
    ckptImg (b :: rest) = rankDir ++ [b] ++ ckptSuffix := by
  -- the three copies follow one another, so they are one
  have hfirst := overwrite_overwrite (0 : UInt8) (List.replicate ckptImgSize 0) rankDir [b] 0
  have hsecond := overwrite_overwrite (0 : UInt8) (List.replicate ckptImgSize 0)
    (rankDir ++ [b]) (ckptSuffix ++ [0]) 0
  rw [Nat.zero_add] at hfirst hsecond
  have hlen : (rankDir ++ [b] ++ ckptSuffix).length < ckptImgSize := by
    simp [rankDir, ckptSuffix, ckptImgSize, cstr]
  have hnul : (0 : UInt8) ∉ rankDir ++ [b] ++ ckptSuffix := by
    have hdir : (0 : UInt8) ∉ rankDir := by decide
    have hsuffix : (0 : UInt8) ∉ ckptSuffix := by decide
    simp [hdir, hsuffix, Ne.symm hb]
  have hbuf : overwrite (0 : UInt8) (overwrite 0 (overwrite 0 (List.replicate ckptImgSize 0) 0
      rankDir) rankDir.length [b]) (rankDir.length + 1) (ckptSuffix ++ [0]) =
      putString ckptImgSize (rankDir ++ [b] ++ ckptSuffix) := by
    rw [hfirst, ← overwrite_zeros hlen, List.append_assoc _ ckptSuffix, ← hsecond]
    rfl
  have hread := getString_putString (Nat.le_of_lt hlen) hnul []
  rw [List.append_nil] at hread
  calc ckptImg (b :: rest)
      = (getString ckptImgSize (putString ckptImgSize (rankDir ++ [b] ++ ckptSuffix))).1 := by
        rw [← hbuf]
        rfl
    _ = rankDir ++ [b] ++ ckptSuffix := by rw [hread]

/-- The value of `RANK_ID` for a rank: its number in decimal. -/
def rankId (rank : Nat) : List UInt8 := cstr (Nat.toDigits 10 rank)

theorem rankId_eq_cons (rank : Nat) : ∃ b rest, rankId rank = b :: rest ∧ b ≠ 0 := by
  cases hdigits : Nat.toDigits 10 rank with
  | nil => exact absurd hdigits Nat.toDigits_ne_nil
  | cons c cs =>
      refine ⟨_, _, by rw [rankId, hdigits]; rfl, ?_⟩
      have hdigit : c.isDigit = true :=
        Nat.isDigit_of_mem_toDigits (by decide) le_rfl (by rw [hdigits]; exact List.mem_cons_self)
      simp only [Char.isDigit, Bool.and_eq_true, decide_eq_true_eq] at hdigit
      have hlow : 48 ≤ c.toNat := hdigit.1
      have hhigh : c.toNat ≤ 57 := hdigit.2
      intro hzero
      have hmod := congrArg UInt8.toNat hzero
      simp only [UInt8.toNat_ofNat', UInt8.toNat_zero] at hmod
      omega

/-- Two ranks have the same path exactly when their numbers start with the same digit. -/
theorem ckptImg_eq_iff (rank rank' : Nat) :
    ckptImg (rankId rank) = ckptImg (rankId rank') ↔
      (rankId rank).head? = (rankId rank').head? := by
  rcases rankId_eq_cons rank with ⟨b, rest, hid, hb⟩
  rcases rankId_eq_cons rank' with ⟨b', rest', hid', hb'⟩
  rw [hid, hid', ckptImg_cons hb, ckptImg_cons hb']
  simp

/-! ## Checkpoints of several ranks -/

/-- A checkpoint of one rank that completes. -/
structure RankCheckpoint where
  rank : Nat
  calls : HandlerCalls
  proc : Proc
  ctx : UContext
  opens : calls.opens = true
  context : calls.context = some ctx
  mapsOpens : calls.mapsOpens = true
  writes : Delivers retries calls.writes (imageRequests proc.records)
  state : proc.state ≠ .POST_RESTART

/-- The files of the directory that the ranks run in. -/
abbrev Dir := List UInt8 → Option (List UInt8)

namespace RankCheckpoint

def image (e : RankCheckpoint) : List UInt8 :=
  imageBytes (e.calls.savedState e.ctx) e.proc.mem e.proc.records

/-- The checkpoint, with the path that the process of the rank has built when it started. -/
def run (dir : Dir) (e : RankCheckpoint) : Exec Dir := do
  let path ← installCkptHandler 0 (some (rankId e.rank))
  let out ← checkpointHandler e.calls e.proc (dir path)
  pure (Function.update dir path out.file)

/-- It writes the image under the path of its rank. -/
theorem run_eq (dir : Dir) (e : RankCheckpoint) :
    e.run dir = .ok (Function.update dir (ckptImg (rankId e.rank)) (some e.image)) := by
  rcases checkpointHandler_succeeds (dir (ckptImg (rankId e.rank))) e.opens e.context e.mapsOpens
    e.writes e.state with ⟨out, hout, _, hfile⟩
  simp [RankCheckpoint.run, installCkptHandler, hout, hfile, image]

def write (e : RankCheckpoint) : Nat × List UInt8 := (e.rank, e.image)

end RankCheckpoint

/-- Checkpoints one after the other are writes under the paths of their ranks. -/
theorem steps_run (es : List RankCheckpoint) (dir : Dir) :
    Exec.steps (fun dir e => RankCheckpoint.run dir e) es dir =
      .ok (storeAll (fun rank => ckptImg (rankId rank)) (es.map RankCheckpoint.write) dir) := by
  induction es using List.reverseRecOn with
  | nil => rfl
  | append_singleton es e ih =>
      rw [Exec.steps_append_singleton, ih, Exec.ok_bind, RankCheckpoint.run_eq, List.map_append,
        List.map_singleton, storeAll_append_singleton]
      rfl

/-- In whatever order the ranks take their checkpoints, when each has taken one there is at its path
the image that it wrote last. -/
def NoImageLost (ranks : Finset Nat) : Prop :=
  ∀ (dir : Dir) (es : List RankCheckpoint), (∀ e ∈ es, e.rank ∈ ranks) →
    (∀ rank ∈ ranks, ∃ e ∈ es, e.rank = rank) →
      ∃ dir', Exec.steps (fun dir e => RankCheckpoint.run dir e) es dir = .ok dir' ∧
        ∀ rank ∈ ranks,
          dir' (ckptImg (rankId rank)) = lastOf rank (es.map RankCheckpoint.write)

/-- A checkpoint of a process without memory, with a given stack pointer. -/
def bareCheckpoint (rank sp : Nat) : RankCheckpoint where
  rank := rank
  calls := { callsWriting [.moved stateSize] with sp := sp }
  proc := bareProc
  ctx := CkptRestartState.blank.ctx
  opens := rfl
  context := rfl
  mapsOpens := rfl
  writes := delivers_bareProc
  state := by decide

/-- Checkpoints with different stack pointers leave different images. -/
theorem bareCheckpoint_image_ne (rank rank' : Nat) :
    (bareCheckpoint rank 0).image ≠ (bareCheckpoint rank' 1).image := by
  intro heq
  have hfits : ∀ rank sp, sp < wordSize →
      ((bareCheckpoint rank sp).calls.savedState CkptRestartState.blank.ctx).Fits :=
    fun rank sp hsp => ⟨hsp, show (0 : Nat) < wordSize by decide⟩
  -- the context stands at the front of the image
  have hfront : ∀ rank sp, (bareCheckpoint rank sp).image.take stateSize =
      encodeState ((bareCheckpoint rank sp).calls.savedState CkptRestartState.blank.ctx) :=
    fun rank sp => List.take_left' (length_encodeState _)
  have hstate := congrArg (fun image => decodeState (image.take stateSize)) heq
  simp only [hfront, decodeState_encodeState (hfits rank 0 (by decide)),
    decodeState_encodeState (hfits rank' 1 (by decide))] at hstate
  exact Nat.zero_ne_one (congrArg CkptRestartState.sp hstate)

/-- No image is lost exactly when the paths of the ranks are different. -/
theorem noImageLost_iff_injOn (ranks : Finset Nat) :
    NoImageLost ranks ↔ Set.InjOn (fun rank => ckptImg (rankId rank)) {rank | rank ∈ ranks} := by
  constructor
  · intro hkeeps rank hrank rank' hrank' hpath
    by_contra hne
    -- every rank once, then these two
    let es := ranks.toList.map (bareCheckpoint · 0) ++ [bareCheckpoint rank 0] ++
      [bareCheckpoint rank' 1]
    have hranks : ∀ e ∈ es, e.rank ∈ ranks := by
      intro e he
      simp only [es, List.mem_append, List.mem_map, List.mem_singleton, Finset.mem_toList] at he
      rcases he with (⟨r, hr, rfl⟩ | rfl) | rfl
      · exact hr
      · exact hrank
      · exact hrank'
    have hall : ∀ r ∈ ranks, ∃ e ∈ es, e.rank = r := by
      intro r hr
      refine ⟨bareCheckpoint r 0, ?_, rfl⟩
      simp only [es, List.mem_append, List.mem_map, Finset.mem_toList]
      exact Or.inl (Or.inl ⟨r, hr, rfl⟩)
    rcases hkeeps (fun _ => none) es hranks hall with ⟨dir', hrun, hlast⟩
    obtain rfl := Exec.ok.inj ((steps_run es _).symm.trans hrun)
    have hown := hlast rank hrank
    rw [List.map_append, List.map_append] at hown
    exact not_storeAll_eq_lastOf hne hpath (bareCheckpoint_image_ne rank rank') _ _ hown
  · intro hinj dir es hranks hall
    refine ⟨_, steps_run es dir, fun rank hrank => ?_⟩
    rcases hall rank hrank with ⟨e, he, rfl⟩
    refine storeAll_eq_lastOf hinj ?_ dir (List.mem_map_of_mem (List.mem_map_of_mem he))
    intro w hw
    rcases List.mem_map.1 hw with ⟨d, hd, rfl⟩
    exact hranks d hd

/-- The ranks keep their images exactly when no two of their numbers start with the same digit. -/
theorem noImageLost_iff (ranks : Finset Nat) :
    NoImageLost ranks ↔
      ∀ rank ∈ ranks, ∀ rank' ∈ ranks,
        (rankId rank).head? = (rankId rank').head? → rank = rank' := by
  rw [noImageLost_iff_injOn]
  constructor
  · intro hinj rank hrank rank' hrank' hdigit
    exact hinj hrank hrank' ((ckptImg_eq_iff rank rank').2 hdigit)
  · intro hdigits rank hrank rank' hrank' hpath
    exact hdigits rank hrank rank' hrank' ((ckptImg_eq_iff rank rank').1 hpath)

/-- The ranks 1 and 10 have one image file. -/
theorem not_noImageLost_oneTen : ¬ NoImageLost {1, 10} := by
  intro hkeeps
  have hpath : ckptImg (rankId 1) = ckptImg (rankId 10) := (ckptImg_eq_iff 1 10).2 (by decide)
  have hinj := (noImageLost_iff_injOn {1, 10}).1 hkeeps
  exact absurd (hinj (by simp) (by simp) hpath) (by decide)

end CkptRestart
