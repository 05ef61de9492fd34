import FunctionPatcher.BranchCoding
import FunctionPatcher.HandleCache

/-!
# Lookups through the handle cache

A lookup may store the handle it has asked for. What any lookup answers does not
depend on which lookups were made before it, as long as a failing
`OSDynLoad_IsModuleLoaded` stores nothing.
-/

namespace FunctionPatcher

namespace FunctionAddressProvider

variable {P : FunctionAddressProvider} {f g : RplHandling → Word}

theorem mapHandles_congr (h : ∀ e ∈ P.rplHandles, f e = g e) : P.mapHandles f = P.mapHandles g := by
  have e : (P.mapHandles f).rplHandles = (P.mapHandles g).rplHandles := by
    apply List.map_congr_left
    intro e he
    rw [h e he]
  cases hf : P.mapHandles f
  cases hg : P.mapHandles g
  rw [hf, hg] at e
  cases e
  rfl

theorem mapHandles_handle (P : FunctionAddressProvider) : P.mapHandles (·.handle) = P := by
  cases P
  unfold mapHandles
  congr 1
  exact List.map_id _

theorem mapHandles_mapHandles (P : FunctionAddressProvider) (f g : RplHandling → Word) :
    (P.mapHandles f).mapHandles g = P.mapHandles fun e => g { e with handle := f e } := by
  unfold mapHandles
  congr 1
  exact List.map_map

theorem entryOf_mapHandles (P : FunctionAddressProvider) (f : RplHandling → Word)
    (library : FunctionReplacementLibraryType) :
    (P.mapHandles f).entryOf library = (P.entryOf library).map fun e => { e with handle := f e } := by
  unfold entryOf mapHandles
  rw [List.find?_map]
  rfl

theorem entry_unique {e e' : RplHandling} (he : e ∈ P.rplHandles) (he' : e' ∈ P.rplHandles)
    (h : e.library = e'.library) : e = e' := by
  have hn : (P.rplHandles.map RplHandling.library).Nodup := by
    have := rplTable_libraries_nodup
    rw [← P.table, List.map_map] at this
    exact this
  exact List.inj_on_of_nodup_map hn he he' h

end FunctionAddressProvider

/-! ## One lookup -/

/-- The handle of an entry once it has been looked up. -/
def handleAfter (E : Env) (e : RplHandling) : Word :=
  if e.handle = 0 then (E.osDynLoadIsModuleLoaded e.rplname).2.getD 0 else e.handle

theorem handleAfter_again (E : Env) (e : RplHandling) :
    handleAfter E { e with handle := handleAfter E e } = handleAfter E e := by
  unfold handleAfter
  by_cases h : e.handle = 0
  · simp only [h, if_true]
    split
    · rfl
    · rfl
  · simp only [h, if_false]

/-- The cache once `library` has been looked up. -/
def filled (E : Env) (P : FunctionAddressProvider) (library : FunctionReplacementLibraryType) :
    FunctionAddressProvider :=
  P.mapHandles fun e => if e.library = library then handleAfter E e else e.handle

/-- `OSDynLoad_IsModuleLoaded` leaves no handle behind when it fails. -/
def Env.StoresOnSuccess (E : Env) : Prop :=
  ∀ name, (E.osDynLoadIsModuleLoaded name).1 ≠ OS_DYNLOAD_OK → (E.osDynLoadIsModuleLoaded name).2.getD 0 = 0

section
variable {E : Env} {P : FunctionAddressProvider}

theorem rplHandleOf_filled (E : Env) (P : FunctionAddressProvider) (library : FunctionReplacementLibraryType) :
    (rplHandleOf E P library).2 = filled E P library := by
  unfold rplHandleOf filled
  cases he : P.entryOf library with
  | none =>
    have hne : ∀ e ∈ P.rplHandles, e.library ≠ library := by
      intro e hmem
      simpa using List.find?_eq_none.mp he e hmem
    refine (P.mapHandles_handle.symm.trans ?_)
    apply FunctionAddressProvider.mapHandles_congr
    intro e hmem
    rw [if_neg (hne e hmem)]
  | some e₀ =>
    have hmem₀ : e₀ ∈ P.rplHandles := FunctionAddressProvider.mem_of_entryOf he
    have hlib₀ : e₀.library = library := FunctionAddressProvider.library_of_entryOf he
    have huniq : ∀ e ∈ P.rplHandles, e.library = library → e = e₀ := by
      intro e hmem hlib
      exact FunctionAddressProvider.entry_unique hmem hmem₀ (hlib.trans hlib₀.symm)
    simp only
    by_cases h0 : e₀.handle = 0
    · rw [if_pos h0]
      apply FunctionAddressProvider.mapHandles_congr
      intro e hmem
      by_cases hlib : e.library = library
      · rw [if_pos hlib, if_pos hlib, huniq e hmem hlib, handleAfter, if_pos h0]
      · rw [if_neg hlib, if_neg hlib]
    · rw [if_neg h0]
      refine (P.mapHandles_handle.symm.trans ?_)
      apply FunctionAddressProvider.mapHandles_congr
      intro e hmem
      by_cases hlib : e.library = library
      · rw [if_pos hlib, huniq e hmem hlib, handleAfter, if_neg h0]
      · rw [if_neg hlib]

theorem rplHandleOf_handle (hE : E.StoresOnSuccess) (library : FunctionReplacementLibraryType) :
    (rplHandleOf E P library).1 =
      (P.entryOf library).bind fun e => if handleAfter E e = 0 then none else some (handleAfter E e) := by
  unfold rplHandleOf
  cases P.entryOf library with
  | none => rfl
  | some e =>
    rw [Option.bind_some]
    unfold handleAfter
    by_cases h0 : e.handle = 0
    · simp only [if_pos h0]
      have hor : ((E.osDynLoadIsModuleLoaded e.rplname).1 ≠ OS_DYNLOAD_OK ∨
          (E.osDynLoadIsModuleLoaded e.rplname).2.getD 0 = 0) ↔
          (E.osDynLoadIsModuleLoaded e.rplname).2.getD 0 = 0 :=
        ⟨fun h => h.elim (hE e.rplname) id, .inr⟩
      simp only [hor]
    · simp only [if_neg h0]

theorem filled_filled (E : Env) (P : FunctionAddressProvider) (library : FunctionReplacementLibraryType) :
    filled E (filled E P library) library = filled E P library := by
  unfold filled
  rw [FunctionAddressProvider.mapHandles_mapHandles]
  apply FunctionAddressProvider.mapHandles_congr
  intro e _
  by_cases h : e.library = library
  · simp only [h, if_true]
    exact handleAfter_again E e
  · simp only [h, if_false]

theorem filled_comm (E : Env) (P : FunctionAddressProvider) (library library' : FunctionReplacementLibraryType) :
    filled E (filled E P library) library' = filled E (filled E P library') library := by
  unfold filled
  rw [FunctionAddressProvider.mapHandles_mapHandles, FunctionAddressProvider.mapHandles_mapHandles]
  apply FunctionAddressProvider.mapHandles_congr
  intro e _
  by_cases h : e.library = library
  · by_cases h' : e.library = library'
    · simp only [if_pos h, if_pos h']
    · simp only [if_pos h, if_neg h']
  · by_cases h' : e.library = library'
    · simp only [if_neg h, if_pos h']
    · simp only [if_neg h, if_neg h']

theorem rplHandleOf_filled_handle (hE : E.StoresOnSuccess) (library library' : FunctionReplacementLibraryType) :
    (rplHandleOf E (filled E P library) library').1 = (rplHandleOf E P library').1 := by
  rw [rplHandleOf_handle hE, rplHandleOf_handle hE]
  have hagain : ∀ e : RplHandling, handleAfter E
      { e with handle := if e.library = library then handleAfter E e else e.handle } = handleAfter E e := by
    intro e
    by_cases h : e.library = library
    · rw [if_pos h]
      exact handleAfter_again E e
    · rw [if_neg h]
  unfold filled
  rw [FunctionAddressProvider.entryOf_mapHandles]
  cases P.entryOf library' with
  | none => rfl
  | some e => simp only [Option.map_some, Option.bind_some, hagain]

theorem exportAddress_filled (hE : E.StoresOnSuccess) (library library' : FunctionReplacementLibraryType)
    (functionName : String) :
    exportAddress E (filled E P library) library' functionName = exportAddress E P library' functionName := by
  unfold exportAddress
  rw [rplHandleOf_filled_handle hE]

end

/-! ## Records of a library -/

theorem shouldBePatched_byLibrary {E : Env} {s : State} {r : PatchedFunctionData} (hx : r.isForExecutable = false) :
    shouldBePatched E s r = .ok (true, s) := by
  unfold shouldBePatched
  rw [if_neg (by rw [hx]; exact Bool.false_ne_true)]

theorem updateFunctionAddresses_byLibrary {E : Env} {s : State} {p : Word} {library : FunctionReplacementLibraryType}
    (hx : (s.objects p).isForExecutable = false) (hlib : (s.objects p).library = some library)
    (hne : library ≠ .other) : updateFunctionAddresses E s p =
      match (s.objects p).functionName with
      | none => .error "Function name was empty. This should never happen. Check logs for more information."
      | some functionName =>
        let (realAddress, P) := getEffectiveAddressOfFunction E s library functionName
        if realAddress = 0 then .ok (false, { s with gFunctionAddressProvider := P })
        else storeFunctionAddresses E { s with gFunctionAddressProvider := P } p realAddress := by
  unfold updateFunctionAddresses
  simp only
  rw [if_neg (by rw [hx]; exact Bool.false_ne_true), hlib]
  cases library with
  | other => exact absurd rfl hne
  | _ => rfl

end FunctionPatcher
