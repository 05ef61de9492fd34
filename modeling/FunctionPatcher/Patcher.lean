import FunctionPatcher.PatchedFunctionData

/-!
# Applying and undoing one patch (`function_patcher.cpp`, `utils/CThread.h`)

Cache maintenance has no effect on `State.mem`: it is memory as `KernelCopyData`
reads and writes it.
-/

namespace FunctionPatcher

/-! ## Threads -/

/-- The cores in the order of `aff`. Each thread is joined before the next is created, and
one that lacks its `OSThread` or its stack never runs. -/
def runOnAllCores (E : Env) (callback : Core → State → State) (s : State) : State :=
  [Core.core2, .core1, .core0].foldl
    (fun s c => if E.pThread c ∧ E.pThreadStack c then callback c s else s) s

/-- The word is copied from a local of the thread. A translation to 0 is not noticed here: the
copy then reads physical address 0. -/
def writeDataAndFlushIC (E : Env) (p : Word) (c : Core) (s : State) : State :=
  let r := s.objects p
  let replaceInstruction := if localToPhysical E (E.threadAddress c) = 0 then s.mem 0 else r.replaceWithInstruction
  kernelCopyData s r.realPhysicalFunctionAddress replaceInstruction

/-! ## `PatchFunction` -/

def applyPatch (E : Env) (s : State) (p : Word) : Except String (Bool × State) :=
  match readFromPhysicalAddress E s (s.objects p).realPhysicalFunctionAddress with
  | none => .error "FunctionPatcherModule: Failed to read instruction."
  | some replacedInstruction =>
    let s := s.setObject p { s.objects p with replacedInstruction := replacedInstruction }
    match generateJumpToOriginal s p with
    | .error e => .error e
    | .ok s =>
      match generateReplacementJump E s p with
      | .error e => .error e
      | .ok s =>
        let s := runOnAllCores E (writeDataAndFlushIC E p) s
        .ok (true, s.setObject p { s.objects p with isPatched := true })

def patchFunction (E : Env) (s : State) (p : Word) : Except String (Bool × State) :=
  if (s.objects p).isPatched then .ok (true, s)
  else
    match shouldBePatched E s (s.objects p) with
    | .error e => .error e
    | .ok (false, s) => .ok (false, s)
    | .ok (true, s) =>
      match updateFunctionAddresses E s p with
      | .error e => .error e
      | .ok (false, s) => .ok (false, s)
      | .ok (true, s) => applyPatch E s p

/-! ## `RestoreFunction` -/

/-- Where `RestoreFunction` writes. A record of an executable has no library. -/
def targetAddrPhys (E : Env) (r : PatchedFunctionData) : Word :=
  if r.library ≠ some .other then E.osEffectiveToPhysical r.realEffectiveFunctionAddress
  else r.realPhysicalFunctionAddress

/-- The physical address of the field `replacedInstruction` of the record at `p`. -/
def sourceAddrPhys (E : Env) (p : Word) : Word :=
  let sourceAddr := p + replacedInstructionOffset
  let a := E.osEffectiveToPhysical sourceAddr
  if a = 0 ∧ 0x00800000 ≤ sourceAddr ∧ sourceAddr < 0x01000000 then
    sourceAddr + (0x30800000 - 0x00800000)
  else a

def restoreFunction (E : Env) (s : State) (p : Word) : Except String (Bool × State) :=
  let r := s.objects p
  if !r.isPatched then .ok (true, s)
  else if r.replacedInstruction = 0 ∨ r.realEffectiveFunctionAddress = 0 then .ok (false, s)
  else
    match readFromPhysicalAddress E s r.realPhysicalFunctionAddress with
    | none => .ok (false, s)
    | some currentInstruction =>
      if currentInstruction ≠ r.replaceWithInstruction then .ok (false, s)
      else if sourceAddrPhys E p = 0 then .error "FunctionPatcherModule: Failed to get physical address"
      else
        let s := kernelCopyData s (targetAddrPhys E r) r.replacedInstruction
        .ok (true, s.setObject p { r with isPatched := false })

def forEach (f : State → Word → Except String (Bool × State)) : State → List Word → Except String State
  | s, [] => .ok s
  | s, p :: ps =>
    match f s p with
    | .error e => .error e
    | .ok (_, s) => forEach f s ps

end FunctionPatcher
