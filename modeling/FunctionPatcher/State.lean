import FunctionPatcher.Ledger
import Mathlib.Data.BitVec

/-!
# The module's data and its environment

Types of the headers, the record of one patch (`PatchedFunctionData.h`), the
handle cache (`FunctionAddressProvider.h`), the globals of `globals.h` as one
`State`, and everything the module calls but does not define as one `Env`.

A pointer is its address, 0 is the null pointer. `State.mem` is memory by
physical address, as `KernelCopyData` sees it. The words the module stores
through its own pointers, those of the jump heap and the callers' `replaceCall`
slots, are kept apart from it.
-/

namespace FunctionPatcher

abbrev Word := BitVec 32

-- Membership in lists of addresses and of title ids is decided through these.
instance instLawfulBEqWord : LawfulBEq Word := inferInstance

instance instLawfulBEqTitleId : LawfulBEq (BitVec 64) := inferInstance

/-! ## Enumerations of the interface -/

inductive FunctionReplacementLibraryType where
  | avm | camera | coreinit | dc | dmae | drmapp | erreula | gx2 | h264 | lzma920 | mic | nfc
  | nioProf | nlibcurl | nlibnss | nlibnss2 | nnAc | nnAcp | nnAct | nnAoc | nnBoss | nnCcr
  | nnCmpt | nnDlp | nnEc | nnFp | nnHai | nnHpad | nnIdbe | nnNdm | nnNets2 | nnNfp | nnNim
  | nnOlv | nnPdm | nnSave | nnSl | nnSpm | nnTemp | nnUds | nnVctl | nsysccr | nsyshid
  | nsyskbd | nsysnet | nsysuhs | nsysuvd | ntag | padscore | procUi | sndcore2 | snduser2
  | sndCore | sndUser | swkbd | sysapp | tcl | tve | uac | uacRpl | usbMic | uvc | uvd | vpad
  | vpadbase | zlib125 | other
  /-- A number a caller passes that is none of the enumerators. -/
  | unlisted (code : Word)
  deriving DecidableEq

inductive FunctionPatcherFunctionType where
  | replaceByLibOrAddress
  | replaceForExecutableByName
  | replaceForExecutableByAddress
  | unlisted (code : Word)
  deriving DecidableEq

/-- `upid u` is every target process that is a process id, `u` its number. -/
inductive FunctionPatcherTargetProcess where
  | all
  | gameAndMenu
  | upid (u : Word)
  deriving DecidableEq

inductive FunctionPatcherStatus where
  | success
  | invalidArgument
  | unsupportedStructVersion
  | unknownError
  | patchNotFound
  deriving DecidableEq

inductive NotifyReason where
  | loaded
  | unloaded
  deriving DecidableEq

/-! ## What a caller registers -/

structure FunctionReplacementDataV2 where
  physicalAddr : Word
  virtualAddr : Word
  replaceAddr : Word
  replaceCall : Word
  library : FunctionReplacementLibraryType
  functionName : String
  targetProcess : FunctionPatcherTargetProcess

structure ReplaceInRPL where
  library : FunctionReplacementLibraryType
  functionName : String

structure ReplaceInRPX where
  targetTitleIds : List (BitVec 64)
  versionMin : BitVec 16
  versionMax : BitVec 16
  executableName : String
  textOffset : Word
  functionName : String

structure FunctionReplacementDataV3 where
  type : FunctionPatcherFunctionType
  physicalAddr : Word
  virtualAddr : Word
  replaceAddr : Word
  replaceCall : Word
  targetProcess : FunctionPatcherTargetProcess
  replaceInRPL : ReplaceInRPL
  replaceInRPX : ReplaceInRPX

/-- The struct a caller points to: a version, and the rest as either layout reads it. -/
structure FunctionReplacementData where
  version : Word
  v2 : FunctionReplacementDataV2
  v3 : FunctionReplacementDataV3

/-! ## The record of one patch -/

structure PatchedFunctionData where
  jumpToOriginal : Word := 0
  jumpData : Word := 0
  realEffectiveFunctionAddress : Word := 0
  realPhysicalFunctionAddress : Word := 0
  realCallFunctionAddressPtr : Word := 0
  replacementFunctionAddress : Word := 0
  replacedInstruction : Word := 0
  replaceWithInstruction : Word := 0
  jumpDataSize : Nat := 15
  type : FunctionPatcherFunctionType := .replaceByLibOrAddress
  titleIds : List (BitVec 64) := []
  titleVersionMin : BitVec 16 := 0
  titleVersionMax : BitVec 16 := 0xFFFF
  executableName : Option String := none
  textOffset : Word := 0
  isPatched : Bool := false
  library : Option FunctionReplacementLibraryType := none
  targetProcess : FunctionPatcherTargetProcess := .upid 0
  functionName : Option String := none

/-- Byte offset of `replacedInstruction` in the object: six words precede it. -/
def replacedInstructionOffset : Word := 24

/-! ## The handle cache -/

structure RplHandling where
  library : FunctionReplacementLibraryType
  rplname : String
  handle : Word
  deriving DecidableEq

/-! ## Calls with an effect outside the module's own data -/

inductive McpCall where
  | mcpOpen (handle : Word)
  | mcpClose (handle : Word)
  deriving DecidableEq

/-- `gJumpHeapHandle`: the blocks handed out with their sizes in words, the words stored
in them, and the calls made so far, latest first. -/
structure JumpHeap where
  blocks : List (Word × Nat)
  words : Word → Word
  calls : List (Ledger.Call Word)

end FunctionPatcher
