import CkptRestart.MemCkpt.Lifecycle
import CkptRestart.MemCkpt.NestedSignal
import CkptRestart.MemCkpt.FsSwitch
import CkptRestart.MemCkpt.LiveStack
import CkptRestart.MemCkpt.RankImages
import CkptRestart.Utils.Chunks
import CkptRestart.SbrkWrapper.HeapRuns
import CkptRestart.SbrkWrapper.HeapBounds
import CkptRestart.LhInfoFile
import CkptRestart.UpperHalfWrappers
import CkptRestart.MemRestore.Touches
import CkptRestart.MemRestore.ImageOrder
import CkptRestart.MemRestore.Accepted
import CkptRestart.MemRestore.StartRanks
import CkptRestart.MemRestore.ReadResults
import CkptRestart.MemRestore.Truncation
import CkptRestart.LastPage
import CkptRestart.ProcMapsUtils.Language
import CkptRestart.CustomLoader.Failures
import CkptRestart.CustomLoader.Image
import CkptRestart.DeepCopyStack.Preload
import CkptRestart.TrampolineSetup.DebugLink
import CkptRestart.PatchLibc.Trampoline
import CkptRestart.PatchLibc.LoadBase
import CkptRestart.ConfineAddrSpace
import CkptRestart.DeepCopyStack.StartStack
import CkptRestart.WrapperCalls
import CkptRestart.MmapWrapper.Signals
import CkptRestart.KernelLoader.Restart
import CkptRestart.MemRestore.Generations
