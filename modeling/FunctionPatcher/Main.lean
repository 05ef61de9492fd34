import FunctionPatcher.Export

/-!
# Notifications and the life of an application (`main.cpp`)

The events the module reacts to, each one step on the state.
-/

namespace FunctionPatcher

/-! ## `CheckIfPatchedFunctionsAreStillInMemory` -/

structure CheckSets where
  physicalAddressesUnchanged : List Word := []
  physicalAddressesChanged : List Word := []

def clearPatched (s : State) (p : Word) : State := s.setObject p { s.objects p with isPatched := false }

/-- The loop, over the records it still has to visit. -/
def checkLoop (E : Env) : State → CheckSets → List Word → State
  | s, _, [] => s
  | s, cs, cur :: rest =>
    let r := s.objects cur
    let a := r.realPhysicalFunctionAddress
    if !r.isPatched ∨ a ∈ cs.physicalAddressesUnchanged then checkLoop E s cs rest
    else if a ∈ cs.physicalAddressesChanged then checkLoop E (clearPatched s cur) cs rest
    else
      match readFromPhysicalAddress E s a with
      | none => checkLoop E s cs rest
      | some currentInstruction =>
        if currentInstruction = r.replaceWithInstruction then
          checkLoop E s { cs with physicalAddressesUnchanged := a :: cs.physicalAddressesUnchanged } rest
        else
          checkLoop E (clearPatched s cur)
            { cs with physicalAddressesChanged := a :: cs.physicalAddressesChanged } rest

def checkIfPatchedFunctionsAreStillInMemory (E : Env) (s : State) : State :=
  checkLoop E s {} s.gPatchedFunctions.reverse

/-! ## Callbacks -/

def PatchedFunctionData.isOfLibrary (r : PatchedFunctionData) (library : FunctionReplacementLibraryType) : Bool :=
  r.type = .replaceByLibOrAddress && r.library = some library

def clearLibrary (library : FunctionReplacementLibraryType) : State → List Word → State
  | s, [] => s
  | s, cur :: rest =>
    if (s.objects cur).isOfLibrary library then clearLibrary library (clearPatched s cur) rest
    else clearLibrary library s rest

def notifyCallback (E : Env) (s : State) (module : Word) (reason : NotifyReason) : Except String State :=
  match reason with
  | .loaded => forEach (patchFunction E) s s.gPatchedFunctions
  | .unloaded =>
    let library := s.gFunctionAddressProvider.getTypeForHandle module
    let s := if library ≠ .other then clearLibrary library s s.gPatchedFunctions else s
    let s := { s with gFunctionAddressProvider := s.gFunctionAddressProvider.resetHandle module }
    .ok (checkIfPatchedFunctionsAreStillInMemory E s)

/-- Only the menu and games patch. -/
def applicationStarts (E : Env) (s : State) : Except String State :=
  if E.upid ≠ 2 ∧ E.upid ≠ 15 then .ok s
  else
    let s := checkIfPatchedFunctionsAreStillInMemory E s
    forEach (patchFunction E) s s.gPatchedFunctions

def applicationEnds (s : State) : State :=
  { s with gFunctionAddressProvider := s.gFunctionAddressProvider.resetHandles }

/-! ## Runs -/

inductive Event where
  | add (functionData : Option FunctionReplacementData)
  | remove (handle : Word)
  | notify (module : Word) (reason : NotifyReason)
  | applicationStarts
  | applicationEnds

def Event.run (E : Env) (s : State) : Event → Except String State
  | .add functionData => (fpAddFunctionPatch E s functionData).map (·.2)
  | .remove handle => (fpRemoveFunctionPatch E s handle).map (·.2)
  | .notify module reason => FunctionPatcher.notifyCallback E s module reason
  | .applicationStarts => FunctionPatcher.applicationStarts E s
  | .applicationEnds => .ok (FunctionPatcher.applicationEnds s)

end FunctionPatcher
