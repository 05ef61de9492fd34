import FunctionPatcher.StillInMemory
import FunctionPatcher.StackRuns

/-!
# Unloading a library

The unload branch of `notify_callback` clears the records of the library, if the
handle cache knows the handle, and leaves the rest to the check.
-/

namespace FunctionPatcher

/-! ## The unload branch -/

theorem clearLibrary_isPatched (library : FunctionReplacementLibraryType) (q : Word) (ps : List Word) (s : State) :
    ((clearLibrary library s ps).objects q).isPatched = true ↔ (s.objects q).isPatched = true ∧
      ¬ (q ∈ ps ∧ (s.objects q).isOfLibrary library = true) := by
  induction ps generalizing s with
  | nil => simp [clearLibrary]
  | cons p ps ih =>
    simp only [clearLibrary]
    by_cases hp : (s.objects p).isOfLibrary library = true
    · rw [if_pos hp, ih]
      by_cases hqp : q = p
      · subst hqp
        simp [clearPatched_self, hp]
      · simp [clearPatched_ne hqp, hqp]
    · rw [if_neg hp, ih]
      by_cases hqp : q = p
      · subst hqp
        simp [hp]
      · simp [hqp]

/-- What the flag of a record tells after the branch has cleared the library of `module`. -/
def keepsFlag (s : State) (module p : Word) : Bool :=
  let library := s.gFunctionAddressProvider.getTypeForHandle module
  (s.objects p).isPatched && (library = .other || !(s.objects p).isOfLibrary library)

/-- Of the records that keep their flag, the last one at `a` does not find its jump there. -/
def OldCodeGone (E : Env) (s : State) (module a : Word) : Prop :=
  E.Reads ∧ ∃ p, s.gPatchedFunctions.reverse.find?
      (fun p => keepsFlag s module p && decide ((s.objects p).realPhysicalFunctionAddress = a)) = some p ∧
    s.mem a ≠ (s.objects p).replaceWithInstruction

section
variable {E : Env} {s s' : State} {module : Word}

def libraryCleared (s : State) (module : Word) : State :=
  let library := s.gFunctionAddressProvider.getTypeForHandle module
  let s := if library ≠ .other then clearLibrary library s s.gPatchedFunctions else s
  { s with gFunctionAddressProvider := s.gFunctionAddressProvider.resetHandle module }

theorem libraryCleared_cleared (s : State) (module : Word) :
    ∃ P o, libraryCleared s module = { s with gFunctionAddressProvider := P, objects := o } ∧
      ∀ q, o q = s.objects q ∨ o q = { s.objects q with isPatched := false } := by
  unfold libraryCleared
  simp only
  split
  · obtain ⟨o, e, ho⟩ := clearLibrary_cleared (s.gFunctionAddressProvider.getTypeForHandle module)
      s.gPatchedFunctions s
    rw [e]
    exact ⟨_, o, rfl, ho⟩
  · exact ⟨_, s.objects, rfl, fun q => .inl rfl⟩

theorem libraryCleared_isPatched {q : Word} (hq : q ∈ s.gPatchedFunctions) :
    ((libraryCleared s module).objects q).isPatched = keepsFlag s module q := by
  rw [Bool.eq_iff_iff]
  unfold libraryCleared keepsFlag
  simp only
  by_cases hl : s.gFunctionAddressProvider.getTypeForHandle module = .other
  · simp [hl]
  · rw [if_pos hl]
    have := clearLibrary_isPatched (s.gFunctionAddressProvider.getTypeForHandle module) q s.gPatchedFunctions s
    simp only [this, hq, hl]
    simp

theorem jumpGone_libraryCleared (a : Word) :
    JumpGone E (libraryCleared s module) s.gPatchedFunctions.reverse a ↔ OldCodeGone E s module a := by
  obtain ⟨P, o, e, ho⟩ := libraryCleared_cleared s module
  have hflag : ∀ q ∈ s.gPatchedFunctions.reverse, (o q).isPatched = keepsFlag s module q := by
    intro q hq
    have : ((libraryCleared s module).objects q).isPatched = _ := libraryCleared_isPatched (List.mem_reverse.mp hq)
    rwa [e] at this
  have hphys : ∀ q, (o q).realPhysicalFunctionAddress = (s.objects q).realPhysicalFunctionAddress ∧
      (o q).replaceWithInstruction = (s.objects q).replaceWithInstruction := by
    intro q
    rcases ho q with h | h <;> simp [h]
  have hfind : firstPatched (libraryCleared s module) s.gPatchedFunctions.reverse a =
      s.gPatchedFunctions.reverse.find?
        (fun p => keepsFlag s module p && decide ((s.objects p).realPhysicalFunctionAddress = a)) := by
    unfold firstPatched
    rw [e, ← List.head?_filter, ← List.head?_filter]
    congr 1
    apply List.filter_congr
    intro q hq
    simp only [patchedAt, hflag q hq, hphys q]
  unfold JumpGone OldCodeGone
  rw [hfind, e]
  simp only [hphys]

theorem unloaded_check (hrun : notifyCallback E s module .unloaded = .ok s') :
    checkLoop E (libraryCleared s module) {} s.gPatchedFunctions.reverse = s' := by
  obtain ⟨P, o, e, _⟩ := libraryCleared_cleared s module
  have hl : (libraryCleared s module).gPatchedFunctions = s.gPatchedFunctions := by rw [e]
  simp only [notifyCallback, Except.ok.injEq] at hrun
  rw [← hl]
  exact hrun

theorem unloaded_objects (hrun : notifyCallback E s module .unloaded = .ok s') (q : Word) :
    s'.objects q = s.objects q ∨ s'.objects q = { s.objects q with isPatched := false } := by
  obtain ⟨P, o, e, ho⟩ := libraryCleared_cleared s module
  obtain ⟨o', e', ho'⟩ := checkLoop_cleared E s.gPatchedFunctions.reverse (libraryCleared s module) {}
  rw [unloaded_check hrun] at e'
  rw [e] at ho'
  rw [e']
  rcases ho q with h | h <;> rcases ho' q with h' | h' <;> simp only at h' ⊢ <;> simp [h', h]

theorem unloaded_isPatched (hrun : notifyCallback E s module .unloaded = .ok s') {q : Word}
    (hq : q ∈ s.gPatchedFunctions) :
    (s'.objects q).isPatched = true ↔
      keepsFlag s module q = true ∧ ¬ OldCodeGone E s module (s.objects q).realPhysicalFunctionAddress := by
  obtain ⟨P, o, e, ho⟩ := libraryCleared_cleared s module
  have hphys : ((libraryCleared s module).objects q).realPhysicalFunctionAddress =
      (s.objects q).realPhysicalFunctionAddress := by
    rw [e]
    rcases ho q with h | h <;> simp [h]
  rw [← unloaded_check hrun, checkLoop_isPatched, libraryCleared_isPatched hq, hphys, jumpGone_libraryCleared]
  simp [hq]

end

/-- The unload is seen: the cache knows the handle as the library's, or the old code is gone
wherever a record of the library is patched. -/
def UnloadSeen (E : Env) (s : State) (module : Word) (library : FunctionReplacementLibraryType) : Prop :=
  s.gFunctionAddressProvider.getTypeForHandle module = library ∨
  ∀ p ∈ s.gPatchedFunctions, (s.objects p).isOfLibrary library = true → (s.objects p).isPatched = true →
    OldCodeGone E s module (s.objects p).realPhysicalFunctionAddress

/-- **Unloading a library.** In every state, an unload leaves no record of the library patched if and
only if it is seen. -/
theorem unloaded_unpatched_iff {E : Env} {s s' : State} {module : Word} {library : FunctionReplacementLibraryType}
    (hlib : library ≠ .other) (hrun : notifyCallback E s module .unloaded = .ok s') :
    (∀ p ∈ s'.gPatchedFunctions, (s'.objects p).isOfLibrary library = true → (s'.objects p).isPatched = false) ↔
      UnloadSeen E s module library := by
  have hl : s'.gPatchedFunctions = s.gPatchedFunctions := notifyCallback_list hrun
  have hkind : ∀ q, (s'.objects q).isOfLibrary library = (s.objects q).isOfLibrary library := by
    intro q
    rcases unloaded_objects hrun q with h | h
    · rw [h]
    · rw [h]
      rfl
  rw [hl]
  unfold UnloadSeen
  by_cases ht : s.gFunctionAddressProvider.getTypeForHandle module = library
  · refine iff_of_true ?_ (.inl ht)
    intro p hp hpl
    rw [hkind] at hpl
    rw [← Bool.not_eq_true, unloaded_isPatched hrun hp]
    simp [keepsFlag, ht, hlib, hpl]
  · rw [or_iff_right ht]
    have hkeeps : ∀ p, (s.objects p).isOfLibrary library = true →
        keepsFlag s module p = (s.objects p).isPatched := by
      intro p hp
      have hne : (s.objects p).isOfLibrary (s.gFunctionAddressProvider.getTypeForHandle module) = false := by
        simp only [PatchedFunctionData.isOfLibrary, Bool.and_eq_true, decide_eq_true_eq] at hp
        simp [PatchedFunctionData.isOfLibrary, hp.2, Ne.symm ht]
      simp [keepsFlag, hne]
    constructor
    · intro h p hp hpl hpp
      have := h p hp (by rw [hkind]; exact hpl)
      rw [← Bool.not_eq_true, unloaded_isPatched hrun hp, hkeeps p hpl] at this
      tauto
    · intro h p hp hpl
      rw [hkind] at hpl
      rw [← Bool.not_eq_true, unloaded_isPatched hrun hp, hkeeps p hpl]
      have := h p hp hpl
      tauto

def coreinitPatched : State :=
  ran (plainState 0x7c0802a6) [(plainEnv 0x10 true, plainPatch .coreinit 0 0x1000 .all)]

theorem unloaded_unpatched_iff_coreinit :
    ∃ s', notifyCallback (plainEnv 0 true) coreinitPatched 0x500 .unloaded = .ok s' ∧
      ((∀ p ∈ s'.gPatchedFunctions, (s'.objects p).isOfLibrary .coreinit = true → (s'.objects p).isPatched = false) ↔
        UnloadSeen (plainEnv 0 true) coreinitPatched 0x500 .coreinit) :=
  ⟨_, rfl, unloaded_unpatched_iff (by decide) rfl⟩

def nextApplication : List (Env × Event) :=
  [(plainEnv 0x10 true, plainPatch .coreinit 0 0x1000 .all), (plainEnv 0x20 true, .applicationEnds),
   (plainEnv 0x20 true, .applicationStarts)]

theorem nextApplication_stays_patched :
    (execute (plainState 0x7c0802a6) nextApplication).isSome = true ∧
    (.coreinit, "coreinit.rpl") ∈ rplTable ∧
    (plainEnv 0x20 true).osDynLoadIsModuleLoaded "coreinit.rpl" = (OS_DYNLOAD_OK, some 0x500) ∧
    ∃ s', notifyCallback (plainEnv 0x20 true) (ran (plainState 0x7c0802a6) nextApplication) 0x500 .unloaded = .ok s' ∧
      ¬ ∀ p ∈ s'.gPatchedFunctions, (s'.objects p).isOfLibrary .coreinit = true → (s'.objects p).isPatched = false := by
  refine ⟨by decide +kernel, by decide, by decide, _, rfl, fun H => ?_⟩
  have := H 0x10 (by decide +kernel) (by decide +kernel)
  revert this
  decide +kernel

/-! ## Chains -/

/-- At each address the records that were patched are all still patched, or none is. -/
def WholeChains (s s' : State) : Prop :=
  ∀ a, (∀ p ∈ s.gPatchedFunctions, patchedAt s a p = true → (s'.objects p).isPatched = true) ∨
    ∀ p ∈ s.gPatchedFunctions, patchedAt s a p = true → (s'.objects p).isPatched = false

/-- At each address the branch clears all patched records or none, or the check finds the jump of the
last of the others gone. -/
def ClearsWholeChains (E : Env) (s : State) (module : Word) : Prop :=
  ∀ a, (∀ p ∈ s.gPatchedFunctions, patchedAt s a p = true → keepsFlag s module p = true) ∨
    (∀ p ∈ s.gPatchedFunctions, patchedAt s a p = true → keepsFlag s module p = false) ∨
    OldCodeGone E s module a

/-- **Half a chain.** An unload leaves none if and only if no records of the library lie in a chain
with others whose last jump is still in place. -/
theorem unloaded_wholeChains_iff {E : Env} {s s' : State} {module : Word}
    (hrun : notifyCallback E s module .unloaded = .ok s') : WholeChains s s' ↔ ClearsWholeChains E s module := by
  have hflag : ∀ a, ∀ p ∈ s.gPatchedFunctions, patchedAt s a p = true →
      ((s'.objects p).isPatched = true ↔ keepsFlag s module p = true ∧ ¬ OldCodeGone E s module a) := by
    intro a p hp hat
    rw [unloaded_isPatched hrun hp, (patchedAt_iff.mp hat).2]
  constructor
  · intro h a
    by_cases hg : OldCodeGone E s module a
    · exact .inr (.inr hg)
    rcases h a with h | h
    · exact .inl fun p hp hat => ((hflag a p hp hat).mp (h p hp hat)).1
    · refine .inr (.inl fun p hp hat => ?_)
      by_contra hk
      rw [Bool.not_eq_false] at hk
      have hstill := (hflag a p hp hat).mpr ⟨hk, hg⟩
      rw [h p hp hat] at hstill
      cases hstill
  · intro h a
    by_cases hg : OldCodeGone E s module a
    · refine .inr fun p hp hat => ?_
      rw [← Bool.not_eq_true, hflag a p hp hat]
      exact fun hk => hk.2 hg
    rcases h a with h | h | h
    · exact .inl fun p hp hat => (hflag a p hp hat).mpr ⟨h p hp hat, hg⟩
    · refine .inr fun p hp hat => ?_
      rw [← Bool.not_eq_true, hflag a p hp hat, h p hp hat]
      exact fun hk => Bool.false_ne_true hk.1
    · exact absurd h hg

/-- A patch by library, and a patch by address on top of it. -/
def mixedChain : State :=
  ran (plainState 0x7c0802a6) [(plainEnv 0x10 true, plainPatch .coreinit 0 0x1000 .all),
    (plainEnv 0x20 true, plainPatch .other 0x02000400 0x2000 .all)]

/-- The library's code is no longer there. -/
def mixedChainGone : State := { mixedChain with mem := fun _ => 0x7c0802a6 }

theorem unloaded_wholeChains_iff_mixed :
    mixedChainGone.gPatchedFunctions.map (fun p => (mixedChainGone.objects p).isOfLibrary .coreinit) = [true, false] ∧
    ∃ s', notifyCallback (plainEnv 0 true) mixedChainGone 0x500 .unloaded = .ok s' ∧ WholeChains mixedChainGone s' := by
  refine ⟨by decide +kernel, _, rfl, (unloaded_wholeChains_iff rfl).mpr fun a => ?_⟩
  have hlist : mixedChainGone.gPatchedFunctions = [0x10, 0x20] := by decide +kernel
  have hat : ∀ p ∈ mixedChainGone.gPatchedFunctions,
      (mixedChainGone.objects p).realPhysicalFunctionAddress = 0x02000400 := by
    intro p hp
    rw [hlist, List.mem_pair] at hp
    rcases hp with rfl | rfl
    · decide +kernel
    · decide +kernel
  by_cases ha : a = 0x02000400
  · subst ha
    refine .inr (.inr ⟨plainEnv_reads 0 true, 0x20, by decide +kernel, ?_⟩)
    show (0x7c0802a6 : Word) ≠ (mixedChainGone.objects 0x20).replaceWithInstruction
    decide +kernel
  · refine .inl fun p hp hpat => absurd ?_ ha
    rw [← (patchedAt_iff.mp hpat).2]
    exact hat p hp

theorem mixedChain_disciplined : Disciplined (plainState 0x7c0802a6).mem mixedChain := by
  have h₁ : Disciplined (plainState 0x7c0802a6).mem coreinitPatched := by
    refine Disciplined.event (disciplined_empty rfl) (by decide)
      (inOrder_add_of_target 0x02000400 0x02000400 (by decide) (by decide +kernel) (plainEnv_writes _ _)
        (by decide) (by decide)) (rfl : (plainPatch .coreinit 0 0x1000 .all).run (plainEnv 0x10 true) _ = _)
  exact h₁.event (by decide +kernel)
    (inOrder_add_of_target 0x02000400 0x02000400 (by decide +kernel) (by decide +kernel) (plainEnv_writes _ _)
      (by decide) (by decide)) (rfl : (plainPatch .other 0x02000400 0x2000 .all).run (plainEnv 0x20 true) _ = _)

theorem mixedChain_halved : StackDiscipline (plainState 0x7c0802a6).mem mixedChain ∧
    ∃ s', notifyCallback (plainEnv 0 true) mixedChain 0x500 .unloaded = .ok s' ∧ ¬ WholeChains mixedChain s' := by
  refine ⟨mixedChain_disciplined.stackDiscipline, _, rfl, fun h => ?_⟩
  rcases h 0x02000400 with h | h
  · have := h 0x10 (by decide +kernel) (by decide +kernel)
    revert this
    decide +kernel
  · have := h 0x20 (by decide +kernel) (by decide +kernel)
    revert this
    decide +kernel

end FunctionPatcher
