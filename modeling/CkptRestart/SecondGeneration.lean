import CkptRestart.MemCkpt.Lifecycle
import CkptRestart.RoundTrip
import Mathlib.Data.List.Find

/-!
# SecondGeneration — checkpoints after a restart

After a restart all ranks live in one process: they read one maps file, in which the kernel may have
merged their mappings, and ask one lower half for one list of regions.  Nothing tells a rank which
of these are its own.  No handler is installed in that process, so the signal would end it, and
checkpoints are taken through `doCheckpoint`.

`covered_second_iff` says which addresses the next checkpoint of any rank covers;
`regenerates_iff` says when these are the rank's own.  A rank whose image the signal has taken is not
out of its handler's last branch (see `Lifecycle`), so its next image is empty.
-/

namespace CkptRestart

open Lib CkptOrRestore
open Lifecycle (Entry)

/-! ## The first generation -/

/-- A rank's image, with the window of addresses that the rank was confined to. -/
structure ConfinedImage extends RankImage where
  windowStart : Nat
  windowEnd : Nat

/-- Images of distinct ranks: complete, and each with records that can be mapped and that lie in the
rank's own window. -/
structure WellFormedImages (imgs : List ConfinedImage) : Prop where
  readable : ∀ img ∈ imgs, img.toRankImage.Readable
  records : ∀ img ∈ imgs, RestorableAll img.records
  inWindow : ∀ img ∈ imgs, ∀ a ∈ img.records,
    img.windowStart ≤ a.addr ∧ a.endAddr ≤ img.windowEnd
  windows : imgs.Pairwise fun i j => i.windowEnd ≤ j.windowStart ∨ j.windowEnd ≤ i.windowStart

def ownRecords (imgs : List ConfinedImage) : List Area :=
  allRecords (imgs.map ConfinedImage.toRankImage)

theorem mem_ownRecords {imgs : List ConfinedImage} {a : Area} :
    a ∈ ownRecords imgs ↔ ∃ img ∈ imgs, a ∈ img.records := by
  simp [ownRecords, allRecords]

theorem WellFormedImages.restorable {imgs : List ConfinedImage} (h : WellFormedImages imgs) :
    RestorableAll (ownRecords imgs) where
  each := by
    intro a ha
    rcases mem_ownRecords.1 ha with ⟨img, himg, ha⟩
    exact (h.records img himg).each a ha
  disjoint := by
    rw [ownRecords, allRecords, List.pairwise_flatMap, List.pairwise_map]
    refine ⟨?_, ?_⟩
    · intro img himg
      rcases List.mem_map.1 himg with ⟨i, hi, rfl⟩
      exact (h.records i hi).disjoint
    · -- records of different ranks lie in different windows
      refine h.windows.imp_of_mem fun {i j} hi hj hapart a ha b hb => ?_
      have hai := h.inWindow i hi a ha
      have hbj := h.inWindow j hj b hb
      refine Set.Ico_disjoint_Ico.2 ?_
      omega

/-! ## The second generation -/

/-- The copy of a rank in the restored memory, with the maps file and the list of the whole process. -/
def resumingProc (r : Restorer) (maps : MapsSnapshot) : Proc where
  state := POST_RESTART
  initialized := true
  fnc := some (mmappedList r.table)
  mem := ⟨maps, r.space.bytes⟩

/-- The rank once control is back from the handler that took its image and that `entry` had entered. -/
def restartedProc (entry : Entry) (r : Restorer) (maps : MapsSnapshot) : Proc :=
  entry.returnFrom (resetWrappers (resumingProc r maps))

/-- That is where the code behind `getcontext` leaves it. -/
theorem restartedProc_eq (entry : Entry) {r : Restorer} {maps : MapsSnapshot} {c : HandlerCalls}
    {st : CkptRestartState} {f : OutFile} {out : HandlerOut}
    (h : afterGetcontext c st (resumingProc r maps) f = .ok out) :
    entry.returnFrom out.proc = restartedProc entry r maps := by
  rw [@Lifecycle.afterGetcontext_restarted c ⟨st, resumingProc r maps⟩ f out rfl h]
  rfl

/-- What any checkpoint of the process selects. -/
def nextRecords (r : Restorer) (maps : MapsSnapshot) : List Area :=
  selectRecords (some (mmappedList r.table)) maps.areas

theorem records_restartedProc (entry : Entry) (r : Restorer) (maps : MapsSnapshot) :
    (restartedProc entry r maps).records = nextRecords r maps := by
  cases entry <;> rfl

/-- A rank of which `entry` has taken the image, and what the system calls of its next checkpoint
return. -/
structure RestartedRank extends ConfinedImage where
  entry : Entry
  calls : HandlerCalls
  before : Option (List UInt8)

namespace RestartedRank

variable (rank : RestartedRank) (r : Restorer) (maps : MapsSnapshot)

/-- The next checkpoint, by `doCheckpoint`.  The handler changes nothing but the rank's own
variables, so it does not matter which of the others have taken theirs. -/
def checkpoint : Exec HandlerOut :=
  Entry.api.enter rank.calls (restartedProc rank.entry r maps) rank.before

/-- What it has copied. -/
def newRecords : List Area :=
  match rank.checkpoint r maps with
  | .ok out => (out.saved.map fun s => s.proc.records).getD []
  | _ => []

end RestartedRank

def ownReadable (img : ConfinedImage) : Set Nat :=
  {x | ∃ a ∈ img.records, a.readable = true ∧ x ∈ a.range}

/-- The file is the image of what the handler has copied, and that is the rank's own. -/
def OwnImage (img : ConfinedImage) (out : HandlerOut) : Prop :=
  ∃ s, out.saved = some s ∧ out.file = some (Lifecycle.image s) ∧
    covered s.proc.records = ownReadable img

/-- The next checkpoint of every rank writes an image of exactly the rank's own readable records, and
the new images of all ranks can be restored together. -/
structure Regenerates (ranks : List RestartedRank) (r : Restorer) (maps : MapsSnapshot) : Prop where
  covers : ∀ rank ∈ ranks, ∃ out, rank.checkpoint r maps = .ok out ∧ OwnImage rank.toConfinedImage out
  together : (ranks.flatMap fun rank => rank.newRecords r maps).Pairwise
    fun a b => Disjoint a.range b.range

def holds (area a : Area) : Bool := regionContains area.addr area.endAddr a.addr a.endAddr

/-- No readable area holds two different records. -/
def OneEach (records : List Area) (maps : MapsSnapshot) : Prop :=
  ∀ b ∈ maps.areas, b.readable = true → ∀ a ∈ records, ∀ a' ∈ records,
    holds b a = true → holds b a' = true → a = a'

/-- The process after a restart: every record is a mapping of its own, the areas list the mappings,
and the lower half's list is that of the records. -/
structure Relisted (records : List Area) (r : Restorer) (maps : MapsSnapshot) : Prop where
  restorable : RestorableAll records
  segs : ∀ a ∈ records, restoredSeg a ∈ r.space.maps.segs
  lists : Lists r.space maps
  tracked : mmappedList r.table = records.map regionOf

section Relisted

variable {records : List Area} {r : Restorer} {maps : MapsSnapshot}

/-- Every record lies in one area. -/
theorem Relisted.exists_holds (h : Relisted records r maps) {a : Area} (ha : a ∈ records) :
    ∃ b ∈ maps.areas, holds b a = true := by
  rcases h.lists.complete _ (h.segs a ha) with ⟨b, hb, hlo, hhi⟩
  exact ⟨b, hb, regionContains_iff.2 ⟨hlo, hhi⟩⟩

theorem Relisted.addr_mem (h : Relisted records r maps) {a b : Area} (ha : a ∈ records)
    (hholds : holds b a = true) : a.addr ∈ b.range := by
  have hne := (h.restorable.each a ha).addr_lt
  rcases regionContains_iff.1 hholds with ⟨hlo, hhi⟩
  exact ⟨hlo, lt_of_lt_of_le hne hhi⟩

/-- That area shows the record's protection and no name. -/
theorem Relisted.holds_spec (h : Relisted records r maps) {a b : Area} (ha : a ∈ records)
    (hb : b ∈ maps.areas) (hholds : holds b a = true) : a.prot = b.prot ∧ b.name = [] := by
  have hra := h.restorable.each a ha
  rcases h.lists.sound b hb a.addr (h.addr_mem ha hholds) with ⟨g, hg, hx, hprot, hname⟩
  have hself : (restoredSeg a).Has a.addr := ⟨le_rfl, hra.addr_lt⟩
  obtain rfl : g = restoredSeg a := RangeMap.eq_of_has hg (h.segs a ha) hx hself
  exact ⟨hra.mappable.anonymous_prot.symm.trans hprot, hname.symm⟩

/-- An area and the region of a record nest only if the record lies in the area. -/
theorem Relisted.nests_iff (h : Relisted records r maps) {a b : Area} (ha : a ∈ records)
    (hb : b ∈ maps.areas) : nests b (regionOf a) = holds b a := by
  have hend := uhMmapEnd_regionOf (h.restorable.each a ha)
  have hstart : (regionOf a).addr = a.addr := rfl
  rw [nests, hend, hstart]
  by_cases hholds : holds b a = true
  · have hin : regionContains b.addr b.endAddr a.addr a.endAddr = true := hholds
    rw [hin, Bool.or_true, hholds]
  · -- an area inside the record is the area that the record lies in
    have hnot : ¬ regionContains a.addr a.endAddr b.addr b.endAddr = true := by
      intro hin
      rcases h.exists_holds ha with ⟨c, hc, hcholds⟩
      have hbne := h.lists.nonempty b hb
      rcases regionContains_iff.1 hin with ⟨hlo, hhi⟩
      rcases regionContains_iff.1 hcholds with ⟨hclo, hchi⟩
      have hxb : b.addr ∈ b.range := ⟨le_rfl, hbne⟩
      have hxc : b.addr ∈ c.range := ⟨by omega, by omega⟩
      obtain rfl : b = c := Area.eq_of_mem_range maps.disjoint hb hc hxb hxc
      exact hholds hcholds
    have hfalse : regionContains b.addr b.endAddr a.addr a.endAddr = false :=
      Bool.eq_false_of_not_eq_true hholds
    rw [Bool.eq_false_of_not_eq_true hnot, hfalse]
    exact hfalse.symm

/-- The record of an area and a region in it has the addresses of the region. -/
theorem Relisted.range_recordAt (h : Relisted records r maps) {a b : Area} (ha : a ∈ records)
    (hholds : holds b a = true) : (recordAt b (regionOf a)).range = a.range := by
  have hend := uhMmapEnd_regionOf (h.restorable.each a ha)
  rcases regionContains_iff.1 hholds with ⟨hlo, hhi⟩
  by_cases hin : regionContains (regionOf a).addr (regionOf a).uhMmapEnd b.addr b.endAddr = true
  · have hin' := regionContains_iff.1 hin
    rw [hend] at hin'
    -- the region and the area contain each other
    have hstart : a.addr ≤ b.addr := hin'.1
    have hsame : b.addr = a.addr ∧ b.endAddr = a.endAddr := ⟨by omega, by omega⟩
    rw [recordAt_of_inside hin, Area.range, hsame.1, hsame.2, Area.range]
  · rw [recordAt_of_not_inside hin, Area.range, Area.cutTo, hend]
    rfl

/-- The records of the next checkpoint: for each readable area that holds records of the last one,
the first of these. -/
theorem Relisted.mem_second_iff (h : Relisted records r maps) {u : Area} :
    u ∈ nextRecords r maps ↔
      ∃ b ∈ maps.areas, b.readable = true ∧
        ∃ a, records.find? (holds b) = some a ∧ recordAt b (regionOf a) = u := by
  -- the tracked list is in the order of the records, so the loop stops at the same one
  have hfind : ∀ b ∈ maps.areas, (records.map regionOf).find? (nests b) =
      (records.find? (holds b)).map regionOf := by
    intro b hb
    rw [List.find?_map]
    exact congrArg _ (List.find?_congr fun a ha => h.nests_iff ha hb)
  have hrecords : nextRecords r maps =
      selectRecords (some (records.map regionOf)) maps.areas := by
    rw [← h.tracked]
    rfl
  rw [hrecords, mem_selectRecords]
  constructor
  · rintro ⟨b, hb, hread, _, t, ht, rfl⟩
    rw [hfind b hb] at ht
    rcases Option.map_eq_some_iff.1 ht with ⟨a, ha, rfl⟩
    exact ⟨b, hb, hread, a, ha, rfl⟩
  · rintro ⟨b, hb, hread, a, ha, rfl⟩
    -- a restored mapping has no name, so the area is not skipped
    have hname := (h.holds_spec (List.mem_of_find?_eq_some ha) hb (List.find?_some ha)).2
    refine ⟨b, hb, hread, ?_, regionOf a, by rw [hfind b hb, ha]; rfl, rfl⟩
    rw [hname]
    decide

theorem Relisted.covered_second_iff (h : Relisted records r maps) {x : Nat} :
    x ∈ covered (nextRecords r maps) ↔
      ∃ b ∈ maps.areas, b.readable = true ∧
        ∃ a, records.find? (holds b) = some a ∧ x ∈ a.range := by
  constructor
  · rintro ⟨u, hu, hx⟩
    rcases h.mem_second_iff.1 hu with ⟨b, hb, hread, a, ha, rfl⟩
    rw [h.range_recordAt (List.mem_of_find?_eq_some ha) (List.find?_some ha)] at hx
    exact ⟨b, hb, hread, a, ha, hx⟩
  · rintro ⟨b, hb, hread, a, ha, hx⟩
    refine ⟨_, h.mem_second_iff.2 ⟨b, hb, hread, a, ha, rfl⟩, ?_⟩
    rwa [h.range_recordAt (List.mem_of_find?_eq_some ha) (List.find?_some ha)]

/-- The protections of areas and records agree, so both are readable or neither is. -/
theorem Relisted.readable_iff (h : Relisted records r maps) {a b : Area} (ha : a ∈ records)
    (hb : b ∈ maps.areas) (hholds : holds b a = true) : b.readable = a.readable := by
  rw [Area.readable, Area.readable, (h.holds_spec ha hb hholds).1]

/-- A record that lies in a readable area is found there, or another one is. -/
theorem exists_find?_holds {a b : Area} (ha : a ∈ records) (hholds : holds b a = true) :
    ∃ a', records.find? (holds b) = some a' ∧ a' ∈ records ∧ holds b a' = true := by
  have hsome : (records.find? (holds b)).isSome := List.find?_isSome.2 ⟨a, ha, hholds⟩
  rcases Option.isSome_iff_exists.1 hsome with ⟨a', ha'⟩
  exact ⟨a', ha', List.mem_of_find?_eq_some ha', List.find?_some ha'⟩

theorem Relisted.covered_nonempty (h : Relisted records r maps) {a : Area} (ha : a ∈ records)
    (hread : a.readable = true) : (covered (nextRecords r maps)).Nonempty := by
  rcases h.exists_holds ha with ⟨b, hb, hholds⟩
  rcases exists_find?_holds ha hholds with ⟨a', hfind, ha', _⟩
  have hbread : b.readable = true := by rw [h.readable_iff ha hb hholds, hread]
  exact ⟨a'.addr, h.covered_second_iff.2
    ⟨b, hb, hbread, a', hfind, le_rfl, (h.restorable.each a' ha').addr_lt⟩⟩

end Relisted

/-! ## What a rank's checkpoint copies -/

section Checkpoint

variable {rank : RestartedRank} {r : Restorer} {maps : MapsSnapshot}

/-- With no failing call, a rank that `doCheckpoint` has saved writes an image of what is selected. -/
theorem RestartedRank.checkpoint_api (hentry : rank.entry = .api)
    (hcalls : rank.calls.Succeed (restartedProc rank.entry r maps)) :
    ∃ out s, rank.checkpoint r maps = .ok out ∧ out.saved = some s ∧
      out.file = some (Lifecycle.image s) ∧ s.proc.records = nextRecords r maps := by
  obtain ⟨ctx, hctx⟩ := Option.ne_none_iff_exists'.1 hcalls.context
  have hstate : (restartedProc rank.entry r maps).state ≠ POST_RESTART := by
    rw [hentry, restartedProc, Lifecycle.Entry.state_returnFrom_api]
    decide
  obtain ⟨out, hrun, htook, hfile⟩ := checkpointHandler_succeeds rank.before hcalls.opens hctx
    hcalls.maps hcalls.writes hstate
  refine ⟨{ out with proc := Entry.api.returnFrom out.proc }, _, ?_, htook.saved, hfile,
    records_restartedProc rank.entry r maps⟩
  rw [RestartedRank.checkpoint, Lifecycle.Entry.enter, hrun]
  rfl

/-- A rank that the signal has saved copies nothing. -/
theorem RestartedRank.checkpoint_signal (hentry : rank.entry = .signal) {out : HandlerOut}
    (hrun : rank.checkpoint r maps = .ok out) : out.saved = none := by
  obtain ⟨hout, hhandler, hret⟩ := Exec.bind_eq_ok_iff.1 hrun
  obtain rfl := Exec.ok.inj hret
  have hstate : (restartedProc rank.entry r maps).state = POST_RESTART := by
    rw [hentry]
    rfl
  rcases checkpointHandler_cases hhandler with
    ⟨_, rfl⟩ | ⟨_, _, rfl⟩ | ⟨_, _, _, htook⟩ | ⟨_, _, _, _, rfl⟩
  · rfl
  · rfl
  · exact absurd hstate htook.state
  · rfl

theorem RestartedRank.newRecords_eq (hentry : rank.entry = .api)
    (hcalls : rank.calls.Succeed (restartedProc rank.entry r maps)) :
    rank.newRecords r maps = nextRecords r maps := by
  obtain ⟨out, s, hrun, hsaved, -, hrecords⟩ := RestartedRank.checkpoint_api hentry hcalls
  simp [RestartedRank.newRecords, hrun, hsaved, hrecords]

end Checkpoint

/-! ## When a rank's checkpoint is its own -/

theorem WellFormedImages.ownReadable_disjoint {imgs : List ConfinedImage}
    (h : WellFormedImages imgs) :
    imgs.Pairwise fun i j => Disjoint (ownReadable i) (ownReadable j) := by
  refine h.windows.imp_of_mem fun {i j} hi hj hapart => ?_
  refine Set.disjoint_left.2 ?_
  rintro x ⟨a, ha, _, hxa⟩ ⟨b, hb, _, hxb⟩
  have hai := h.inWindow i hi a ha
  have hbj := h.inWindow j hj b hb
  simp only [Area.mem_range] at hxa hxb
  omega

section Own

variable {imgs : List ConfinedImage} {r : Restorer} {maps : MapsSnapshot}

theorem Relisted.covered_subset (h : Relisted (ownRecords imgs) r maps) {x : Nat}
    (hx : x ∈ covered (nextRecords r maps)) : ∃ img ∈ imgs, x ∈ ownReadable img := by
  rcases h.covered_second_iff.1 hx with ⟨b, hb, hread, a, hfind, hxa⟩
  have ha := List.mem_of_find?_eq_some hfind
  have haread : a.readable = true := by
    rw [← h.readable_iff ha hb (List.find?_some hfind), hread]
  rcases mem_ownRecords.1 ha with ⟨img, himg, haimg⟩
  exact ⟨img, himg, a, haimg, haread, hxa⟩

/-- With two ranks, what is selected is no rank's own unless there is nothing to save. -/
theorem Relisted.alone (hwf : WellFormedImages imgs) (h : Relisted (ownRecords imgs) r maps)
    (hcovers : ∀ img ∈ imgs, covered (nextRecords r maps) = ownReadable img) (hne : imgs ≠ []) :
    imgs.length = 1 ∨ ∀ a ∈ ownRecords imgs, a.readable = false := by
  rcases imgs with _ | ⟨i, _ | ⟨j, rest⟩⟩
  · exact absurd rfl hne
  · exact Or.inl rfl
  · right
    intro a ha
    by_contra hread
    -- an address that is covered belongs to the first rank and to the second
    rcases h.covered_nonempty ha (by simpa using hread) with ⟨x, hx⟩
    have hxi : x ∈ ownReadable i := by rwa [hcovers i (by simp)] at hx
    have hxj : x ∈ ownReadable j := by rwa [hcovers j (by simp)] at hx
    have hdis := (List.pairwise_cons.1 hwf.ownReadable_disjoint).1 j (by simp)
    exact Set.disjoint_left.1 hdis hxi hxj

/-- If every readable record is covered, no readable area holds two. -/
theorem Relisted.oneEach_of_covered (h : Relisted (ownRecords imgs) r maps)
    (hcovers : ∀ img ∈ imgs, covered (nextRecords r maps) = ownReadable img) :
    OneEach (ownRecords imgs) maps := by
  -- the record that is found in an area is every record in it
  have hfound : ∀ b ∈ maps.areas, b.readable = true → ∀ a ∈ ownRecords imgs, holds b a = true →
      (ownRecords imgs).find? (holds b) = some a := by
    intro b hb hread a ha hholds
    have haread : a.readable = true := by rw [← h.readable_iff ha hb hholds, hread]
    rcases mem_ownRecords.1 ha with ⟨img, himg, haimg⟩
    have hown : a.addr ∈ ownReadable img :=
      ⟨a, haimg, haread, le_rfl, (h.restorable.each a ha).addr_lt⟩
    rw [← hcovers img himg] at hown
    rcases h.covered_second_iff.1 hown with ⟨c, hc, _, a', hfind, hxa'⟩
    have ha' := List.mem_of_find?_eq_some hfind
    have hxa : a.addr ∈ a.range := ⟨le_rfl, (h.restorable.each a ha).addr_lt⟩
    -- the area in which `a` was found is `b`, since both hold its first address
    obtain rfl : a' = a := Area.eq_of_mem_range h.restorable.disjoint ha' ha hxa' hxa
    obtain rfl : c = b := Area.eq_of_mem_range maps.disjoint hc hb
      (h.addr_mem ha (List.find?_some hfind)) (h.addr_mem ha hholds)
    exact hfind
  intro b hb hread a ha a' ha' hholds hholds'
  exact Option.some.inj
    ((hfound b hb hread a ha hholds).symm.trans (hfound b hb hread a' ha' hholds'))

theorem Relisted.nextRecords_eq_nil (h : Relisted (ownRecords imgs) r maps)
    (hnone : ∀ a ∈ ownRecords imgs, a.readable = false) : nextRecords r maps = [] := by
  refine List.eq_nil_iff_forall_not_mem.2 fun u hu => ?_
  rcases h.mem_second_iff.1 hu with ⟨b, hb, hread, a, hfind, _⟩
  have ha := List.mem_of_find?_eq_some hfind
  have haread := h.readable_iff ha hb (List.find?_some hfind)
  rw [hread, hnone a ha] at haread
  exact Bool.noConfusion haread

/-- What is selected is the own memory of a rank that is alone and whose records stayed apart. -/
theorem Relisted.covered_eq (h : Relisted (ownRecords imgs) r maps)
    (halone : imgs.length = 1 ∨ ∀ a ∈ ownRecords imgs, a.readable = false)
    (heach : OneEach (ownRecords imgs) maps) :
    ∀ img ∈ imgs, covered (nextRecords r maps) = ownReadable img := by
  rcases halone with hone | hnone
  · rcases List.length_eq_one_iff.1 hone with ⟨img, rfl⟩
    have hmem : ∀ {a}, a ∈ ownRecords [img] ↔ a ∈ img.records := by
      intro a
      rw [mem_ownRecords]
      simp
    intro i hi
    obtain rfl : i = img := List.mem_singleton.1 hi
    ext x
    constructor
    · intro hx
      rcases h.covered_subset hx with ⟨j, hj, hxj⟩
      rwa [List.mem_singleton.1 hj] at hxj
    · rintro ⟨a, ha, hread, hxa⟩
      have hall := hmem.2 ha
      rcases h.exists_holds hall with ⟨b, hb, hholds⟩
      have hbread : b.readable = true := by rw [h.readable_iff hall hb hholds, hread]
      rcases exists_find?_holds hall hholds with ⟨a', hfind, ha', hholds'⟩
      obtain rfl := heach b hb hbread a hall a' ha' hholds hholds'
      exact h.covered_second_iff.2 ⟨b, hb, hbread, a, hfind, hxa⟩
  · -- nothing readable: nothing is selected
    rw [h.nextRecords_eq_nil hnone]
    intro img himg
    ext x
    constructor
    · rintro ⟨u, hu, _⟩
      exact absurd hu List.not_mem_nil
    · rintro ⟨a, ha, hread, _⟩
      rw [hnone a (mem_ownRecords.2 ⟨img, himg, ha⟩)] at hread
      exact Bool.noConfusion hread

end Own

/-! ## When all of them are -/

def imagesOf (ranks : List RestartedRank) : List ConfinedImage := ranks.map RestartedRank.toConfinedImage

/-- What the next checkpoints rely on: `doCheckpoint` has taken the images, a rank is alone or has
nothing to save, and the kernel has merged no two readable records. -/
structure OwnOnly (ranks : List RestartedRank) (maps : MapsSnapshot) : Prop where
  api : ∀ rank ∈ ranks, rank.entry = .api
  alone : ranks.length = 1 ∨ ∀ a ∈ ownRecords (imagesOf ranks), a.readable = false
  apart : OneEach (ownRecords (imagesOf ranks)) maps

section Ranks

variable {ranks : List RestartedRank} {r : Restorer} {maps : MapsSnapshot}

theorem Regenerates.api (h : Regenerates ranks r maps) : ∀ rank ∈ ranks, rank.entry = .api := by
  intro rank hrank
  obtain ⟨out, hrun, s, hsaved, -⟩ := h.covers rank hrank
  cases hentry : rank.entry with
  | api => rfl
  | signal =>
      rw [RestartedRank.checkpoint_signal hentry hrun] at hsaved
      cases hsaved

/-- The images that are written have what is selected. -/
theorem Regenerates.covered_eq (h : Regenerates ranks r maps)
    (hcalls : ∀ rank ∈ ranks, rank.calls.Succeed (restartedProc rank.entry r maps)) :
    ∀ img ∈ imagesOf ranks, covered (nextRecords r maps) = ownReadable img := by
  intro img himg
  obtain ⟨rank, hrank, rfl⟩ := List.mem_map.1 himg
  obtain ⟨out, hrun, s, hsaved, -, hown⟩ := h.covers rank hrank
  obtain ⟨out', s', hrun', hsaved', -, hrecords⟩ :=
    RestartedRank.checkpoint_api (h.api rank hrank) (hcalls rank hrank)
  obtain rfl := Exec.ok.inj (hrun.symm.trans hrun')
  obtain rfl := Option.some.inj (hsaved.symm.trans hsaved')
  rw [← hrecords, hown]

/-- Ranks that `doCheckpoint` has saved, of which one is alone or none has anything to save, and whose
records stayed apart, save them again. -/
theorem regenerates_of_ownOnly (h : Relisted (ownRecords (imagesOf ranks)) r maps)
    (hcalls : ∀ rank ∈ ranks, rank.calls.Succeed (restartedProc rank.entry r maps))
    (hown : OwnOnly ranks maps) : Regenerates ranks r maps := by
  have halone : (imagesOf ranks).length = 1 ∨
      ∀ a ∈ ownRecords (imagesOf ranks), a.readable = false := by
    rw [imagesOf, List.length_map]
    exact hown.alone
  have hcovers := h.covered_eq halone hown.apart
  have hnew : ∀ rank ∈ ranks, rank.newRecords r maps = nextRecords r maps := fun rank hrank =>
    RestartedRank.newRecords_eq (hown.api rank hrank) (hcalls rank hrank)
  constructor
  · intro rank hrank
    obtain ⟨out, s, hrun, hsaved, hfile, hrecords⟩ :=
      RestartedRank.checkpoint_api (hown.api rank hrank) (hcalls rank hrank)
    refine ⟨out, hrun, s, hsaved, hfile, ?_⟩
    rw [hrecords]
    exact hcovers _ (List.mem_map_of_mem hrank)
  · rw [List.flatMap_congr hnew]
    rcases hown.alone with hone | hnone
    · obtain ⟨rank, rfl⟩ := List.length_eq_one_iff.1 hone
      rw [List.flatMap_singleton]
      exact selectRecords_disjoint (mmappedList r.table) maps.disjoint
    · have hempty : (ranks.flatMap fun _ => nextRecords r maps) = [] := by
        rw [h.nextRecords_eq_nil hnone]
        exact List.flatMap_eq_nil_iff.2 fun _ _ => rfl
      rw [hempty]
      exact .nil

end Ranks

/-- Restoring well-formed images leaves a process in which all their records are listed. -/
theorem restore_relisted {k : Kernel} (hk : k.Honest) {imgs : List ConfinedImage}
    (hwf : WellFormedImages imgs) {r : Restorer}
    (htakes : k.TakesAll (allSaved (imgs.map ConfinedImage.toRankImage)) r) (htable : r.table = .initial)
    (hfree : ∀ a ∈ ownRecords imgs, ∀ x ∈ a.range, r.space.protAt x = none)
    (hcount : (ownRecords imgs).length < maxTrack) :
    ∃ r', restoreMemoryForImages k (imgs.map fun img => img.image) r =
        .ok (0, imgs.map fun img => img.st, r') ∧
      ∀ maps, k.procMaps r'.space = some maps → Relisted (ownRecords imgs) r' maps := by
  have hrecords := hwf.restorable
  have hplaced := hrecords.mappableAll.placedAll (hrecords.pagesFree (hrecords.allFree hfree))
  have hreadable : ∀ img ∈ imgs.map ConfinedImage.toRankImage, img.Readable := by
    intro img himg
    rcases List.mem_map.1 himg with ⟨i, hi, rfl⟩
    exact hwf.readable i hi
  have hrestore := restoreMemoryForImages_spec hk hreadable
    (fun a ha => (hrecords.each a ha).fits) hplaced htakes
  rw [List.map_map, List.map_map] at hrestore
  refine ⟨_, hrestore, fun maps hmaps => ⟨hrecords, ?_, hk _ _ hmaps, ?_⟩⟩
  · intro a ha
    have hsegs : ((allSaved (imgs.map ConfinedImage.toRankImage)).map fun e => pagesSeg e.area) =
        (ownRecords imgs).map pagesSeg := map_area_allSaved _ pagesSeg
    rw [segs_restoredAll hplaced, hsegs, ← (hrecords.each a ha).pagesSeg_eq]
    exact List.mem_append_left _ (List.mem_reverse.2 (List.mem_map_of_mem ha))
  · have hlen : (allSaved (imgs.map ConfinedImage.toRankImage)).length < maxTrack := by
      have hareas := congrArg List.length (map_area_allSaved (imgs.map ConfinedImage.toRankImage) id)
      rw [List.length_map, List.length_map] at hareas
      rw [hareas]
      exact hcount
    rw [mmappedList_restoredAll hplaced.valid hlen htable]
    exact map_area_allSaved _ regionOf

/-- After the images of all ranks are restored in one process, the next checkpoints are the ranks'
own exactly if `doCheckpoint` has taken the images, there is one rank, or nothing readable, and no
readable area of the maps file holds two of the records. -/
theorem regenerates_iff {k : Kernel} (hk : k.Honest) {ranks : List RestartedRank} (hne : ranks ≠ [])
    (hwf : WellFormedImages (imagesOf ranks)) {r : Restorer}
    (htakes : k.TakesAll (allSaved ((imagesOf ranks).map ConfinedImage.toRankImage)) r)
    (htable : r.table = .initial)
    (hfree : ∀ a ∈ ownRecords (imagesOf ranks), ∀ x ∈ a.range, r.space.protAt x = none)
    (hcount : (ownRecords (imagesOf ranks)).length < maxTrack) :
    ∃ r', restoreMemoryForImages k ((imagesOf ranks).map fun img => img.image) r =
        .ok (0, (imagesOf ranks).map fun img => img.st, r') ∧
      ∀ maps, k.procMaps r'.space = some maps →
        (∀ rank ∈ ranks, rank.calls.Succeed (restartedProc rank.entry r' maps)) →
        (Regenerates ranks r' maps ↔ OwnOnly ranks maps) := by
  rcases restore_relisted hk hwf htakes htable hfree hcount with ⟨r', hrestore, hrelisted⟩
  refine ⟨r', hrestore, fun maps hmaps hcalls => ?_⟩
  have h := hrelisted maps hmaps
  constructor
  · intro hregen
    have hcovers := hregen.covered_eq hcalls
    have halone := h.alone hwf hcovers (by simpa [imagesOf] using hne)
    rw [imagesOf, List.length_map] at halone
    exact ⟨hregen.api, halone, h.oneEach_of_covered hcovers⟩
  · exact regenerates_of_ownOnly h hcalls

/-! ## Pages -/

/-- A rank with some pages in its window. -/
def pagesImage (windowStart windowEnd : Nat) (addrs : List Nat) : ConfinedImage where
  st := .blank
  mem := bareProc.mem
  records := addrs.map pageAt
  reads := byteReads (imageBytes .blank bareProc.mem (addrs.map pageAt))
  windowStart := windowStart
  windowEnd := windowEnd

/-- Pages in a window. -/
def PagesIn (windowStart windowEnd : Nat) (addrs : List Nat) : Prop :=
  windowEnd < wordSize ∧ (∀ addr ∈ addrs, PageAligned addr ∧ windowStart ≤ addr ∧
    addr + 0x1000 ≤ windowEnd) ∧ addrs.Pairwise fun a b => a + 0x1000 ≤ b

instance (windowStart windowEnd : Nat) (addrs : List Nat) :
    Decidable (PagesIn windowStart windowEnd addrs) :=
  inferInstanceAs (Decidable (_ ∧ (∀ addr ∈ addrs, _) ∧ _))

theorem PagesIn.restorableAll {lo hi : Nat} {addrs : List Nat} (h : PagesIn lo hi addrs) :
    RestorableAll (addrs.map pageAt) where
  each := by
    intro a ha
    obtain ⟨addr, haddr, rfl⟩ := List.mem_map.1 ha
    obtain ⟨haligned, -, hend⟩ := h.2.1 addr haddr
    exact pageAt_restorable haligned (lt_of_le_of_lt hend h.1)
  disjoint := by
    rw [List.pairwise_map]
    exact h.2.2.imp fun hab => Set.Ico_disjoint_Ico.2 (by simp only [pageAt]; omega)

/-- The windows and the pages of some ranks. -/
def pagesImages (specs : List (Nat × Nat × List Nat)) : List ConfinedImage :=
  specs.map fun spec => pagesImage spec.1 spec.2.1 spec.2.2

theorem wellFormed_pagesImages {specs : List (Nat × Nat × List Nat)}
    (hpages : ∀ spec ∈ specs, PagesIn spec.1 spec.2.1 spec.2.2)
    (hwindows : specs.Pairwise fun i j => i.2.1 ≤ j.1 ∨ j.2.1 ≤ i.1) :
    WellFormedImages (pagesImages specs) where
  readable := by
    intro img himg
    obtain ⟨spec, _, rfl⟩ := List.mem_map.1 himg
    exact ⟨blank_fits, ready_byteReads _⟩
  records := by
    intro img himg
    obtain ⟨spec, hspec, rfl⟩ := List.mem_map.1 himg
    exact (hpages spec hspec).restorableAll
  inWindow := by
    intro img himg a ha
    obtain ⟨spec, hspec, rfl⟩ := List.mem_map.1 himg
    obtain ⟨addr, haddr, rfl⟩ := List.mem_map.1 ha
    exact ((hpages spec hspec).2.1 addr haddr).2
  windows := by
    rw [pagesImages, List.pairwise_map]
    exact hwindows

/-- A rank that has called `doCheckpoint`. -/
def againCalling (calls : HandlerCalls) (img : ConfinedImage) : RestartedRank where
  toConfinedImage := img
  entry := .api
  calls := calls
  before := none

theorem imagesOf_againCalling (calls : HandlerCalls) (imgs : List ConfinedImage) :
    imagesOf (imgs.map (againCalling calls)) = imgs := by
  rw [imagesOf, List.map_map]
  exact List.map_id imgs

/-- There are calls that do not fail. -/
theorem exists_succeed (r : Restorer) (maps : MapsSnapshot) :
    ∃ calls : HandlerCalls, ∀ entry, calls.Succeed (restartedProc entry r maps) := by
  refine ⟨callsWriting ((imageRequests (nextRecords r maps)).map .moved), fun entry => ?_⟩
  refine ⟨rfl, by simp [callsWriting], rfl, ?_⟩
  rw [records_restartedProc]
  exact delivers_moved retries _

/-- One rank with two pages, and two ranks, one with three pages and one with two. -/
def pagesSpecs : List (List (Nat × Nat × List Nat)) :=
  [[(0x10000, 0x20000, [0x10000, 0x12000])],
    [(0x10000, 0x20000, [0x10000, 0x12000, 0x18000]), (0x20000, 0x30000, [0x20000, 0x21000])]]

/-- The pages are restored, and then all ranks call `doCheckpoint`. -/
def NextOfPages (specs : List (Nat × Nat × List Nat)) : Prop :=
  ∃ r' calls, restoreMemoryForImages .plain ((pagesImages specs).map fun img => img.image)
      emptyRestorer = .ok (0, (pagesImages specs).map fun img => img.st, r') ∧
    (Regenerates ((pagesImages specs).map (againCalling calls)) r' (listEach r'.space) ↔
      OwnOnly ((pagesImages specs).map (againCalling calls)) (listEach r'.space))

theorem regenerates_iff_pages : NextOfPages [(0x10000, 0x20000, [0x10000, 0x12000])] ∧
    NextOfPages [(0x10000, 0x20000, [0x10000, 0x12000, 0x18000]),
      (0x20000, 0x30000, [0x20000, 0x21000])] := by
  suffices hall : ∀ specs ∈ pagesSpecs, NextOfPages specs from
    ⟨hall _ (by simp [pagesSpecs]), hall _ (by simp [pagesSpecs])⟩
  intro specs hspecs
  have hwf : WellFormedImages (pagesImages specs) :=
    wellFormed_pagesImages
      ((by decide : ∀ specs ∈ pagesSpecs, ∀ spec ∈ specs, PagesIn spec.1 spec.2.1 spec.2.2) specs hspecs)
      ((by decide : ∀ specs ∈ pagesSpecs, specs.Pairwise fun i j => i.2.1 ≤ j.1 ∨ j.2.1 ≤ i.1) specs
        hspecs)
  have hne : pagesImages specs ≠ [] :=
    (by decide : ∀ specs ∈ pagesSpecs, (pagesImages specs) ≠ []) specs hspecs
  have hcount : (ownRecords (pagesImages specs)).length < maxTrack :=
    (by decide : ∀ specs ∈ pagesSpecs, (ownRecords (pagesImages specs)).length < maxTrack) specs hspecs
  -- the calls are those of the process that the restart leaves
  obtain ⟨r', hrestore, -⟩ := restore_relisted Kernel.plain_honest hwf (r := emptyRestorer)
    (Kernel.plain_takesAll _ _) rfl (fun _ _ _ _ => rfl) hcount
  obtain ⟨calls, hcalls⟩ := exists_succeed r' (listEach r'.space)
  have himages := imagesOf_againCalling calls (pagesImages specs)
  obtain ⟨r'', hrestore', hiff⟩ := @regenerates_iff _ Kernel.plain_honest
    ((pagesImages specs).map (againCalling calls)) (by simpa using hne) (by rwa [himages])
    emptyRestorer (Kernel.plain_takesAll _ _) rfl (fun _ _ _ _ => rfl) (by rwa [himages])
  rw [himages] at hrestore'
  obtain rfl : r'' = r' := by simpa using hrestore'.symm.trans hrestore
  refine ⟨r'', calls, hrestore, hiff _ rfl fun rank hrank => ?_⟩
  obtain ⟨img, _, rfl⟩ := List.mem_map.1 hrank
  exact hcalls _

/-- With two ranks, the checkpoint of each holds the page of the other. -/
theorem not_regenerates_twoRanks :
    ∃ imgs, imgs = pagesImages [(0x10000, 0x11000, [0x10000]), (0x20000, 0x21000, [0x20000])] ∧
      WellFormedImages imgs ∧ ∃ r' maps calls,
        restoreMemoryForImages .plain (imgs.map fun img => img.image) emptyRestorer =
          .ok (0, [.blank, .blank], r') ∧
        Kernel.plain.procMaps r'.space = some maps ∧
        (∀ rank ∈ imgs.map (againCalling calls),
          rank.calls.Succeed (restartedProc rank.entry r' maps)) ∧
        ¬ Regenerates (imgs.map (againCalling calls)) r' maps := by
  have hwf : WellFormedImages
      (pagesImages [(0x10000, 0x11000, [0x10000]), (0x20000, 0x21000, [0x20000])]) :=
    wellFormed_pagesImages (by decide) (by decide)
  obtain ⟨r', hrestore, hrelisted⟩ := restore_relisted Kernel.plain_honest hwf (r := emptyRestorer)
    (Kernel.plain_takesAll _ _) rfl (fun _ _ _ _ => rfl) (by decide)
  obtain ⟨calls, hsucceed⟩ := exists_succeed r' (listEach r'.space)
  have hcalls : ∀ rank ∈ (pagesImages [(0x10000, 0x11000, [0x10000]),
      (0x20000, 0x21000, [0x20000])]).map (againCalling calls),
      rank.calls.Succeed (restartedProc rank.entry r' (listEach r'.space)) := by
    intro rank hrank
    obtain ⟨img, _, rfl⟩ := List.mem_map.1 hrank
    exact hsucceed _
  refine ⟨_, rfl, hwf, r', listEach r'.space, calls, hrestore, rfl, hcalls, fun hregen => ?_⟩
  have hcovers := hregen.covered_eq hcalls
  rw [imagesOf_againCalling] at hcovers
  rcases (hrelisted _ rfl).alone hwf hcovers (by decide) with hone | hnone
  · exact absurd hone (by decide)
  · have hread := hnone (pageAt 0x10000) (by simp [mem_ownRecords, pagesImages, pagesImage])
    exact absurd hread (by decide)

end CkptRestart
