import CkptRestart.Common
import CkptRestart.Lib.Bytes

/-!
# Format — the byte layout of a checkpoint image

An image is the structure `CkptRestartState_t` as it lies in memory, followed by records: the 4096
bytes of the union `ProcMapsArea`, then `size` bytes of memory.  Nothing in the file marks where a
record starts; a reader has to consume exactly what the writer wrote.

The bytes of a header that no field occupies are written as zero here: they are whatever the stack
held, and no reader looks at them.
-/

namespace CkptRestart

open Lib

/-! ## Headers of records -/

def fileNameSize : Nat := 1024

def areaSize : Nat := 4096

/-- The bytes of an `Area`.  `prot` and `flags` are `int`s in unions with a `uint64_t`. -/
def encodeArea (a : Area) : List UInt8 :=
  putWord 8 a.addr ++ (putWord 8 a.endAddr ++ (putWord 8 a.size ++ (putWord 8 a.offset ++
    (putWord 4 a.prot ++ (putWord 4 0 ++ (putWord 4 a.flags ++ (putWord 4 0 ++
      (putWord 8 a.devmajor ++ (putWord 8 a.devminor ++ (putWord 8 a.inodenum ++
        (putWord 8 a.properties ++ (putString fileNameSize a.name ++
          List.replicate (areaSize - (80 + fileNameSize)) 0))))))))))))

def decodeArea (buf : List UInt8) : Area :=
  let addr := getWord 8 buf
  let endAddr := getWord 8 addr.2
  let size := getWord 8 endAddr.2
  let offset := getWord 8 size.2
  let prot := getWord 4 offset.2
  let protPad := getWord 4 prot.2
  let flags := getWord 4 protPad.2
  let flagsPad := getWord 4 flags.2
  let devmajor := getWord 8 flagsPad.2
  let devminor := getWord 8 devmajor.2
  let inodenum := getWord 8 devminor.2
  let properties := getWord 8 inodenum.2
  let name := getString fileNameSize properties.2
  { addr := addr.1
    endAddr := endAddr.1
    size := size.1
    offset := offset.1
    prot := prot.1
    flags := flags.1
    devmajor := devmajor.1
    devminor := devminor.1
    inodenum := inodenum.1
    properties := properties.1
    name := name.1 }

@[simp] theorem length_encodeArea (a : Area) : (encodeArea a).length = areaSize := by
  simp only [encodeArea, List.length_append, length_putWord, length_putString,
    List.length_replicate]
  decide

theorem getWord_putWord_word {v : Nat} (h : v < wordSize) (rest : List UInt8) :
    getWord 8 (putWord 8 v ++ rest) = (v, rest) :=
  getWord_putWord_of_lt (by simpa [wordSize] using h) rest

theorem getWord_putWord_int {v : Nat} (h : v < 2 ^ 32) (rest : List UInt8) :
    getWord 4 (putWord 4 v ++ rest) = (v, rest) :=
  getWord_putWord_of_lt (by simpa using h) rest

theorem decodeArea_encodeArea {a : Area} (h : a.Fits) : decodeArea (encodeArea a) = a := by
  have hzero : (0 : Nat) < 2 ^ 32 := by decide
  have hprot : a.prot < 2 ^ 32 := lt_trans h.prot (by decide)
  have hname : a.name.length ≤ fileNameSize := Nat.le_of_lt h.name_length
  simp only [decodeArea, encodeArea, getWord_putWord_word h.addr, getWord_putWord_word h.endAddr,
    getWord_putWord_word h.size, getWord_putWord_word h.offset, getWord_putWord_int hprot,
    getWord_putWord_int h.flags, getWord_putWord_int hzero, getWord_putWord_word h.devmajor,
    getWord_putWord_word h.devminor, getWord_putWord_word h.inodenum,
    getWord_putWord_word h.properties, getString_putString hname h.name_nul]

/-! ## The saved context -/

def ucontextSize : Nat := 968

def stateSize : Nat := ucontextSize + 16

/-- A `ucontext_t`; the code never looks inside it. -/
abbrev UContext := { ctx : List UInt8 // ctx.length = ucontextSize }

structure CkptRestartState where
  ctx : UContext
  sp : Nat
  fsAddr : Nat
  deriving DecidableEq

def CkptRestartState.blank : CkptRestartState where
  ctx := ⟨List.replicate ucontextSize 0, by simp⟩
  sp := 0
  fsAddr := 0

/-- The two pointers are words. -/
structure CkptRestartState.Fits (st : CkptRestartState) : Prop where
  sp : st.sp < wordSize
  fsAddr : st.fsAddr < wordSize

theorem blank_fits : CkptRestartState.blank.Fits := ⟨by decide, by decide⟩

def encodeState (st : CkptRestartState) : List UInt8 :=
  st.ctx.val ++ (putWord 8 st.sp ++ putWord 8 st.fsAddr)

/-- The `ucontext_t` at the start of a zeroed structure that `buf` was read into. -/
def contextOf (buf : List UInt8) : UContext :=
  ⟨(buf ++ List.replicate ucontextSize 0).take ucontextSize, by simp⟩

/-- The `CkptRestartState_t` that `buf` was read into. -/
def decodeState (buf : List UInt8) : CkptRestartState :=
  let sp := getWord 8 (buf.drop ucontextSize)
  { ctx := contextOf buf
    sp := sp.1
    fsAddr := (getWord 8 sp.2).1 }

@[simp] theorem length_encodeState (st : CkptRestartState) :
    (encodeState st).length = stateSize := by
  simp only [encodeState, List.length_append, st.ctx.property, length_putWord]
  decide

theorem decodeState_encodeState {st : CkptRestartState} (h : st.Fits) :
    decodeState (encodeState st) = st := by
  have hctx : contextOf (encodeState st) = st.ctx := by
    apply Subtype.ext
    simp only [contextOf, encodeState, List.append_assoc]
    exact List.take_left' st.ctx.property
  have hdrop : (encodeState st).drop ucontextSize = putWord 8 st.sp ++ putWord 8 st.fsAddr :=
    List.drop_left' st.ctx.property
  have hfs : getWord 8 (putWord 8 st.fsAddr) = (st.fsAddr, []) := by
    simpa using getWord_putWord_word h.fsAddr []
  simp only [decodeState, hctx, hdrop, getWord_putWord_word h.sp, hfs]

end CkptRestart
