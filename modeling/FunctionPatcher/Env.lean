import FunctionPatcher.KernelFindExport
import FunctionPatcher.AddressProvider
import Mathlib.Logic.Function.Basic

/-!
# The global state and the calls out of the module

`OSFatal` stops the console, so what may call it returns an `Except`, with the
text on the screen as the error.
-/

namespace FunctionPatcher

inductive Core where
  | core0
  | core1
  | core2
  deriving DecidableEq, Repr

structure NotifyData where
  name : String
  textAddr : Word

/-- What one call into the module finds around it. -/
structure Env where
  /-- 0 where the system knows no mapping. -/
  osEffectiveToPhysical : Word → Word
  /-- The translation the processor applies to a load or a fetch. -/
  mmu : Word → Word
  /-- Address of the local `currentInstruction` of `ReadFromPhysicalAddress`. -/
  stackAddress : Word
  /-- The two allocations of the `CThread` pinned to a core. -/
  pThread : Core → Bool
  pThreadStack : Core → Bool
  /-- Address of the local `replace_instruction` of `writeDataAndFlushIC` in that thread. -/
  threadAddress : Core → Word
  /-- Address of the code of `OSGetUPID`, and what calling it returns. -/
  osGetUPID : Word
  upid : Word
  osGetTitleID : BitVec 64
  /-- The handle that `MCP_Open` returns, which is open. -/
  mcpOpen : Word
  /-- The title's version, if the call returns 0. -/
  mcpGetTitleInfo : Word → BitVec 64 → Option (BitVec 16)
  osDynLoadRPLs : List NotifyData
  osDynLoadGetRPLInfo : Bool
  /-- The error code, and the handle if one is stored. -/
  osDynLoadIsModuleLoaded : String → Word × Option Word
  /-- 0 where the module has no such export. -/
  osDynLoadFindExport : Word → String → Word
  kernel : Kernel
  /-- Where `new (std::nothrow)` puts the next record, 0 if it fails. -/
  newObject : Word
  /-- The block for a request in words, given the blocks in use, 0 if it fails. -/
  memAllocFromExpHeapEx : List (Word × Nat) → Nat → Word
  fpTargetProcessWiiUMenu : Word
  fpTargetProcessGame : Word

def OS_DYNLOAD_OK : Word := 0

structure State where
  /-- Memory in words, by physical addresses that are multiples of 4. What an access across two words
  does is not modelled. -/
  mem : Word → Word
  /-- The callers' `replaceCall` slots by address. -/
  replaceCalls : Word → Word
  jumpHeap : JumpHeap
  gFunctionAddressProvider : FunctionAddressProvider
  mcpCalls : List McpCall
  /-- The records by address, which is also their handle. -/
  objects : Word → PatchedFunctionData
  gPatchedFunctions : List Word

/-- The module after `WUMS_INITIALIZE`, on memory `mem`. -/
structure State.Initial (s : State) : Prop where
  empty : s.gPatchedFunctions = []
  heap : s.jumpHeap.blocks = []
  calls : s.jumpHeap.calls = []
  provider : s.gFunctionAddressProvider = .initial
  mcp : s.mcpCalls = []

def State.setObject (s : State) (p : Word) (r : PatchedFunctionData) : State :=
  { s with objects := Function.update s.objects p r }

/-! ## Memory access (`utils/utils.cpp`) -/

/-- The physical address of a local: the window of the module's own data is not known
to `OSEffectiveToPhysical`. -/
def localToPhysical (E : Env) (a : Word) : Word :=
  if a < 0x00800000 ∨ 0x01000000 ≤ a then E.osEffectiveToPhysical a
  else a + 0x30800000 - 0x00800000

def readFromPhysicalAddress (E : Env) (s : State) (srcPhys : Word) : Option Word :=
  if localToPhysical E E.stackAddress = 0 then none else some (s.mem srcPhys)

def kernelCopyData (s : State) (dstPhys w : Word) : State := { s with mem := Function.update s.mem dstPhys w }

def load (E : Env) (s : State) (a : Word) : Word := s.mem (E.mmu a)

end FunctionPatcher
