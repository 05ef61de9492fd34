import FunctionPatcher.Env

/-!
# The record of one patch (`PatchedFunctionData.cpp`)

Construction, address resolution and the two code generators. A function that
changes the record is a function of the state and the record's address.
-/

namespace FunctionPatcher

open PatchedFunctionData

/-! ## The jump heap -/

def storeWords (f : Word → Word) : Word → List Word → Word → Word
  | _, [] => f
  | a, w :: ws => storeWords (Function.update f a w) (a + 4) ws

/-- `MEMAllocFromExpHeapEx(gJumpHeapHandle, ..)`, the size in words. -/
def memAllocFromExpHeapEx (E : Env) (H : JumpHeap) (size : Nat) : Word × JumpHeap :=
  let a := E.memAllocFromExpHeapEx H.blocks size
  if a = 0 then (0, H)
  else (a, { H with blocks := (a, size) :: H.blocks, calls := .alloc a :: H.calls })

def memFreeToExpHeap (H : JumpHeap) (a : Word) : JumpHeap :=
  { H with blocks := H.blocks.eraseP fun b => b.1 = a, calls := .free a :: H.calls }

def allocateJumpData (E : Env) (s : State) (p : Word) : Bool × State :=
  let r := s.objects p
  if 0x01FFFFFC < r.replacementFunctionAddress ∨ r.targetProcess ≠ .all then
    let (a, H) := memAllocFromExpHeapEx E s.jumpHeap 15
    (a ≠ 0, { s with jumpHeap := H }.setObject p { r with jumpDataSize := 15, jumpData := a })
  else (true, s)

def allocateJumpToOriginal (E : Env) (s : State) (p : Word) : Bool × State :=
  let (b, H) := memAllocFromExpHeapEx E s.jumpHeap 5
  (b ≠ 0, { s with jumpHeap := H }.setObject p { s.objects p with jumpToOriginal := b })

def allocateDataForJumps (E : Env) (s : State) (p : Word) : Bool × State :=
  if (s.objects p).jumpData ≠ 0 ∧ (s.objects p).jumpToOriginal ≠ 0 then (true, s)
  else
    match allocateJumpData E s p with
    | (false, s) => (false, s)
    | (true, s) => allocateJumpToOriginal E s p

def freeBuffer (H : JumpHeap) (a : Word) : JumpHeap := if a ≠ 0 then memFreeToExpHeap H a else H

def destroy (s : State) (p : Word) : State :=
  let r := s.objects p
  { s with jumpHeap := freeBuffer (freeBuffer s.jumpHeap r.jumpToOriginal) r.jumpData }.setObject p
    { r with jumpToOriginal := 0, jumpData := 0 }

/-! ## Construction -/

/-- The fields `make_shared_v3` fills in before it allocates. A type that is none of the
enumerators passes the `switch` without a case. -/
def recordV3 (d : FunctionReplacementDataV3) : PatchedFunctionData :=
  let r : PatchedFunctionData :=
    { isPatched := false
      replacementFunctionAddress := d.replaceAddr
      realCallFunctionAddressPtr := d.replaceCall
      targetProcess := d.targetProcess
      type := d.type }
  match d.type with
  | .replaceForExecutableByName =>
    { r with
      library := none
      titleIds := d.replaceInRPX.targetTitleIds
      titleVersionMin := d.replaceInRPX.versionMin
      titleVersionMax := d.replaceInRPX.versionMax
      executableName := some d.replaceInRPX.executableName
      functionName := some d.replaceInRPX.functionName }
  | .replaceForExecutableByAddress =>
    { r with
      library := none
      titleIds := d.replaceInRPX.targetTitleIds
      titleVersionMin := d.replaceInRPX.versionMin
      titleVersionMax := d.replaceInRPX.versionMax
      executableName := some d.replaceInRPX.executableName
      textOffset := d.replaceInRPX.textOffset }
  | .replaceByLibOrAddress =>
    if d.replaceInRPL.library ≠ .other then
      { r with library := some d.replaceInRPL.library, functionName := some d.replaceInRPL.functionName }
    else
      { r with
        library := some d.replaceInRPL.library
        realEffectiveFunctionAddress := d.virtualAddr
        realPhysicalFunctionAddress := d.physicalAddr }
  | .unlisted _ => r

def recordV2 (d : FunctionReplacementDataV2) : PatchedFunctionData :=
  let r : PatchedFunctionData :=
    { type := .replaceByLibOrAddress
      isPatched := false
      library := some d.library
      targetProcess := d.targetProcess
      replacementFunctionAddress := d.replaceAddr
      realCallFunctionAddressPtr := d.replaceCall }
  if d.library ≠ .other then { r with functionName := some d.functionName }
  else { r with realEffectiveFunctionAddress := d.virtualAddr, realPhysicalFunctionAddress := d.physicalAddr }

/-- What `make_shared_v2` and `make_shared_v3` do with the record they fill in. On failure
the last reference to it is dropped. -/
def makeShared (E : Env) (s : State) (r : PatchedFunctionData) : Option Word × State :=
  if E.newObject = 0 then (none, s)
  else
    match allocateDataForJumps E (s.setObject E.newObject r) E.newObject with
    | (true, s') => (some E.newObject, s')
    | (false, s') => (none, destroy s' E.newObject)

def makeSharedV3 (E : Env) (s : State) (d : FunctionReplacementDataV3) : Option Word × State :=
  makeShared E s (recordV3 d)

def makeSharedV2 (E : Env) (s : State) (d : FunctionReplacementDataV2) : Option Word × State :=
  makeShared E s (recordV2 d)

/-! ## Addresses -/

/-- The loop over `rpl_handles`: the handle it ends with, if it does not return. -/
def rplHandleOf (E : Env) (P : FunctionAddressProvider) (library : FunctionReplacementLibraryType) :
    Option Word × FunctionAddressProvider :=
  match P.entryOf library with
  | none => (none, P)
  | some e =>
    if e.handle = 0 then
      let (err, stored) := E.osDynLoadIsModuleLoaded e.rplname
      let handle := stored.getD 0
      (if err ≠ OS_DYNLOAD_OK ∨ handle = 0 then none else some handle, P.setHandle library handle)
    else (some e.handle, P)

/-- Where a leading `b` leads: `realAddrData` is the word at `realAddr`. -/
def followBranch (realAddr realAddrData : Word) : Word :=
  if realAddrData &&& 0xFC000003 = 0x48000000 then
    let addressDiff := realAddrData &&& 0x01FFFFFC
    if realAddrData &&& 0x02000000 = 0x02000000 then realAddr + (0xFE000000 + addressDiff)
    else realAddr + addressDiff
  else realAddr

def getEffectiveAddressOfFunction (E : Env) (s : State) (library : FunctionReplacementLibraryType)
    (functionName : String) : Word × FunctionAddressProvider :=
  match rplHandleOf E s.gFunctionAddressProvider library with
  | (none, P) => (0, P)
  | (some rplHandle, P) =>
    let realAddr := E.osDynLoadFindExport rplHandle functionName
    if realAddr = 0 then (0, P) else (followBranch realAddr (load E s realAddr), P)

/-- `none` where the source returns false. -/
def getAddressForExecutable (E : Env) (r : PatchedFunctionData) : Except String (Option Word) :=
  match r.executableName with
  | none => .ok none
  | some executableName =>
    match r.type with
    | .replaceForExecutableByAddress =>
      if E.osDynLoadRPLs.length = 0 then
        .error "OSDynLoad_GetNumberOfRPLs failed. This shouldn't happen. Missing patches?"
      else if !E.osDynLoadGetRPLInfo then
        .error "OSDynLoad_GetNumberOfRPLs failed. This shouldn't happen. Missing patches?"
      else
        .ok ((E.osDynLoadRPLs.find? fun rpl => endsWith rpl.name executableName).map
          fun rpl => rpl.textAddr + r.textOffset)
    | .replaceForExecutableByName =>
      match r.functionName with
      | none => .error "Function name was empty. This should never happen. Check logs for more information."
      | some functionName =>
        let result := kernelFindExport E.kernel executableName functionName
        .ok (if result = 0 then none else some result)
    | _ => .error "Unexpected function patching type."

def storeFunctionAddresses (E : Env) (s : State) (p realAddress : Word) : Except String (Bool × State) :=
  let physicalFunctionAddress := E.osEffectiveToPhysical realAddress
  if physicalFunctionAddress = 0 then .error "Error. Something is wrong with the physical address"
  else .ok (true, s.setObject p { s.objects p with
    realEffectiveFunctionAddress := realAddress
    realPhysicalFunctionAddress := physicalFunctionAddress })

def PatchedFunctionData.isForExecutable (r : PatchedFunctionData) : Bool :=
  r.type = .replaceForExecutableByName || r.type = .replaceForExecutableByAddress

def updateFunctionAddresses (E : Env) (s : State) (p : Word) : Except String (Bool × State) :=
  let r := s.objects p
  if r.isForExecutable then
    match getAddressForExecutable E r with
    | .error e => .error e
    | .ok none => .ok (false, s)
    | .ok (some realAddress) => storeFunctionAddresses E s p realAddress
  else
    match r.library with
    | none => .error "library was empty. This should never happen. Check logs for more information."
    | some .other => .ok (true, s)
    | some library =>
      match r.functionName with
      | none => .error "Function name was empty. This should never happen. Check logs for more information."
      | some functionName =>
        let (realAddress, P) := getEffectiveAddressOfFunction E s library functionName
        let s := { s with gFunctionAddressProvider := P }
        if realAddress = 0 then .ok (false, s) else storeFunctionAddresses E s p realAddress

/-! ## Titles -/

def shouldBePatched (E : Env) (s : State) (r : PatchedFunctionData) : Except String (Bool × State) :=
  if r.isForExecutable then
    let curTitleId := E.osGetTitleID
    if curTitleId ∉ r.titleIds then .ok (false, s)
    else
      let mcpHandle := E.mcpOpen
      let updateInfo :=
        if curTitleId &&& 0x0000000F00000000 = 0 then
          E.mcpGetTitleInfo mcpHandle (curTitleId ||| 0x0000000E00000000)
        else none
      let info := match updateInfo with
        | some titleVersion => some titleVersion
        | none => E.mcpGetTitleInfo mcpHandle curTitleId
      match info with
      | none => .error "Failed to get title version. This should not happen.\nPlease report this with a crash log."
      | some titleVersion =>
        let s := { s with
          mcpCalls := .mcpClose mcpHandle :: .mcpClose mcpHandle :: .mcpOpen mcpHandle :: s.mcpCalls }
        .ok (!(titleVersion < r.titleVersionMin || r.titleVersionMax < titleVersion), s)
  else .ok (true, s)

/-! ## Code generation -/

/-- `ba`, a branch to an absolute address below 0x02000000. -/
def branchTo (a : Word) : Word := 0x48000002 ||| (a &&& 0x01FFFFFC)

def shortBranchPossible (a : Word) : Bool := a &&& 0x01FFFFFC = a

def lisR11 (a : Word) : Word := (0x3d600000 : Word) ||| ((a >>> 16) &&& 0x0000FFFF)
def oriR11 (a : Word) : Word := 0x616b0000 ||| (a &&& 0x0000ffff)
def mtctrR11 : Word := 0x7d6903a6
def bctr : Word := 0x4e800420

def jumpToOriginalWords (r : PatchedFunctionData) : List Word :=
  let jumpToAddress := r.realEffectiveFunctionAddress + 4
  if !shortBranchPossible jumpToAddress then
    [lisR11 jumpToAddress, oriR11 jumpToAddress, mtctrR11, r.replacedInstruction, bctr]
  else [r.replacedInstruction, branchTo jumpToAddress]

def generateJumpToOriginal (s : State) (p : Word) : Except String State :=
  let r := s.objects p
  if r.jumpToOriginal = 0 then .error "FunctionPatcherModule: this->jumpToOriginal is not allocated"
  else .ok { s with
    jumpHeap := { s.jumpHeap with
      words := storeWords s.jumpHeap.words r.jumpToOriginal (jumpToOriginalWords r) }
    replaceCalls := Function.update s.replaceCalls r.realCallFunctionAddressPtr r.jumpToOriginal }

/-- The compares of `jumpData`, with the branch to `myfunc` behind each. -/
def processFilterWords (E : Env) (s : State) (r : PatchedFunctionData) : List Word :=
  let shortBranchToOriginalPossible := shortBranchPossible (r.realEffectiveFunctionAddress + 4)
  let loadUPID : List Word :=
    [0x3d600000 ||| (load E s E.osGetUPID &&& 0x0000FFFF),
     0x816b0000 ||| (load E s (E.osGetUPID + 4) &&& 0x0000FFFF)]
  match r.targetProcess with
  | .all => []
  | .gameAndMenu =>
    loadUPID ++
    [0x2c0b0000 ||| E.fpTargetProcessWiiUMenu,
     0x41820000 ||| (if shortBranchToOriginalPossible then 0x00000014 else 0x00000020),
     0x2c0b0000 ||| E.fpTargetProcessGame,
     0x41820000 ||| (if shortBranchToOriginalPossible then 0x0000000C else 0x00000018)]
  | .upid targetProcess =>
    loadUPID ++
    [0x2c0b0000 ||| targetProcess,
     0x41820000 ||| (if shortBranchToOriginalPossible then 0x0000000C else 0x00000018)]

def notMyProcessWords (r : PatchedFunctionData) : List Word :=
  let originalFunctionAddrWithOffset := r.realEffectiveFunctionAddress + 4
  r.replacedInstruction ::
    if !shortBranchPossible originalFunctionAddrWithOffset then
      [lisR11 originalFunctionAddrWithOffset, oriR11 originalFunctionAddrWithOffset, mtctrR11, bctr]
    else [branchTo originalFunctionAddrWithOffset]

def myfuncWords (r : PatchedFunctionData) : List Word :=
  if !shortBranchPossible r.replacementFunctionAddress then
    [lisR11 r.replacementFunctionAddress, oriR11 r.replacementFunctionAddress, mtctrR11, bctr]
  else [branchTo r.replacementFunctionAddress]

def jumpDataWords (E : Env) (s : State) (r : PatchedFunctionData) : List Word :=
  (if r.targetProcess ≠ .all then processFilterWords E s r ++ notMyProcessWords r else []) ++ myfuncWords r

/-- `offset` ends at the index of the last word written. -/
def generateReplacementJump (E : Env) (s : State) (p : Word) : Except String State :=
  let r := s.objects p
  if 0x01FFFFFC < r.replacementFunctionAddress ∨ r.targetProcess ≠ .all then
    if r.jumpData = 0 then .error "FunctionPatcherModule: jumpData was not allocated"
    else
      let ws := jumpDataWords E s r
      if r.jumpDataSize ≤ ws.length - 1 then .error "FunctionPatcherModule: Wrote too much data"
      else if !shortBranchPossible r.jumpData then .error "FunctionPatcherModule: Jump is impossible"
      else .ok { s.setObject p { r with replaceWithInstruction := branchTo r.jumpData } with
        jumpHeap := { s.jumpHeap with words := storeWords s.jumpHeap.words r.jumpData ws } }
  else .ok (s.setObject p { r with replaceWithInstruction := branchTo r.replacementFunctionAddress })

end FunctionPatcher
