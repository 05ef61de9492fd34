import FunctionPatcher.Ledger
import FunctionPatcher.Overlay
import FunctionPatcher.PowerPC
import FunctionPatcher.State
import FunctionPatcher.KernelFindExport
import FunctionPatcher.AddressProvider
import FunctionPatcher.Env
import FunctionPatcher.PatchedFunctionData
import FunctionPatcher.Patcher
import FunctionPatcher.Export
import FunctionPatcher.Main
import FunctionPatcher.PatcherSpec
import FunctionPatcher.ExportSpec
import FunctionPatcher.Runs
import FunctionPatcher.Removal
import FunctionPatcher.Discipline
import FunctionPatcher.StackRuns
import FunctionPatcher.NoDangling
import FunctionPatcher.Undoable
import FunctionPatcher.Registration
import FunctionPatcher.StillInMemory
import FunctionPatcher.Unload
import FunctionPatcher.HeapAccounting
import FunctionPatcher.HandleCache
import FunctionPatcher.Outcomes
import FunctionPatcher.InstructionCaches
import FunctionPatcher.ExportLookup
import FunctionPatcher.ExecutableModule
import FunctionPatcher.Emitted
import FunctionPatcher.ProcessFilter
import FunctionPatcher.Trampoline
import FunctionPatcher.Layout
import FunctionPatcher.Dispatch
import FunctionPatcher.Continuation
import FunctionPatcher.RelativeBranch
import FunctionPatcher.BranchCoding
import FunctionPatcher.CacheFilling
import FunctionPatcher.CacheHistory
import FunctionPatcher.LoadedTwice
import FunctionPatcher.ThunkResolution
import FunctionPatcher.RemovalFrame
import FunctionPatcher.TitleService
import FunctionPatcher.CodeIntegrity
import FunctionPatcher.RunDispatch
import FunctionPatcher.FatalErrors
import FunctionPatcher.Measured
import FunctionPatcher.Threads
import FunctionPatcher.Walk
import FunctionPatcher.LoaderMemory
import FunctionPatcher.InterleavedCalls
import FunctionPatcher.Recovery
import FunctionPatcher.History
import FunctionPatcher.Provenance
import FunctionPatcher.Grounded
import FunctionPatcher.PatchPieces
import FunctionPatcher.ConcurrentPatches
