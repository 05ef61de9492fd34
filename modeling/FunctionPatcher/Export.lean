import FunctionPatcher.Patcher

/-!
# The exported functions (`export.cpp`)

The lock `gPatchedFunctionsMutex` makes a call of `FPRemoveFunctionPatch` one
step. `FPAddFunctionPatch` holds it only while it appends the record, so its
two halves are separate functions.
-/

namespace FunctionPatcher

/-! ## `FPAddFunctionPatch` -/

structure AddResult where
  status : FunctionPatcherStatus
  outHandle : Option Word := none
  outHasBeenPatched : Option Bool := none

/-- Everything before the lock is taken. `none` for a return with an error. -/
def preparePatch (E : Env) (s : State) (functionData : Option FunctionReplacementData) :
    Except String (AddResult × Option Word × State) :=
  match functionData with
  | none => .ok (⟨.invalidArgument, none, none⟩, none, s)
  | some functionData =>
    if functionData.version < 2 ∨ 3 < functionData.version then
      .ok (⟨.unsupportedStructVersion, none, none⟩, none, s)
    else
      let (functionDataOpt, s) :=
        if functionData.version = 2 then makeSharedV2 E s functionData.v2
        else makeSharedV3 E s functionData.v3
      match functionDataOpt with
      | none => .ok (⟨.unknownError, none, none⟩, none, s)
      | some p =>
        match patchFunction E s p with
        | .error e => .error e
        | .ok (patchResult, s) => .ok (⟨.success, some p, some patchResult⟩, some p, s)

def publishPatch (s : State) (p : Word) : State :=
  { s with gPatchedFunctions := s.gPatchedFunctions ++ [p] }

def fpAddFunctionPatch (E : Env) (s : State) (functionData : Option FunctionReplacementData) :
    Except String (AddResult × State) :=
  match preparePatch E s functionData with
  | .error e => .error e
  | .ok (result, none, s) => .ok (result, s)
  | .ok (result, some p, s) => .ok (result, publishPatch s p)

/-! ## `FPRemoveFunctionPatch` -/

structure RemoveScan where
  toBeTempRestored : List Word := []
  found : Bool := false
  erasePosition : Nat := 0
  toBeRemoved : Word := 0

/-- The loop. It is left early at a record that is not patched. -/
def removeScan (s : State) (handle : Word) : RemoveScan → List Word → RemoveScan
  | sc, [] => sc
  | sc, cur :: rest =>
    if cur = handle then
      let sc := { sc with toBeRemoved := cur, found := true }
      if !(s.objects cur).isPatched then sc else removeScan s handle sc rest
    else if sc.found then
      if (s.objects cur).realPhysicalFunctionAddress = (s.objects sc.toBeRemoved).realPhysicalFunctionAddress then
        removeScan s handle { sc with toBeTempRestored := sc.toBeTempRestored ++ [cur] } rest
      else removeScan s handle sc rest
    else removeScan s handle { sc with erasePosition := sc.erasePosition + 1 } rest

def fpRemoveFunctionPatch (E : Env) (s : State) (handle : Word) : Except String (FunctionPatcherStatus × State) :=
  let sc := removeScan s handle {} s.gPatchedFunctions
  if !sc.found then .ok (.patchNotFound, s)
  else
    let restored :=
      if (s.objects sc.toBeRemoved).isPatched then
        -- the later patches in reverse, then the one to remove
        forEach (restoreFunction E) s (sc.toBeTempRestored.reverse ++ [sc.toBeRemoved])
      else .ok s
    match restored with
    | .error e => .error e
    | .ok s =>
      let s := { s with gPatchedFunctions := s.gPatchedFunctions.eraseIdx sc.erasePosition }
      let reapplied :=
        if (s.objects sc.toBeRemoved).isPatched then forEach (patchFunction E) s sc.toBeTempRestored
        else .ok s
      match reapplied with
      | .error e => .error e
      -- the last reference to the record goes out of scope
      | .ok s => .ok (.success, destroy s sc.toBeRemoved)

/-! ## Queries -/

def fpGetVersion (outVersion : Option Word) : FunctionPatcherStatus × Option Word :=
  match outVersion with
  | none => (.invalidArgument, none)
  | some _ => (.success, some 2)

end FunctionPatcher
