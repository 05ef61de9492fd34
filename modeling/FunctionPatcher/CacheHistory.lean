import FunctionPatcher.CacheFilling
import FunctionPatcher.Unload

/-!
# When the cache knows a library

A handle comes into the cache with a call of `PatchFunction` for a record of the
library that is not patched, and leaves it with the application or with an
unload the library is recognised by.
-/

namespace FunctionPatcher

/-! ## The handle of a library -/

namespace FunctionAddressProvider

variable {P : FunctionAddressProvider} {library : FunctionReplacementLibraryType} {module : Word}

/-- The cached handle of `library`, 0 if there is none. -/
def handleOf (P : FunctionAddressProvider) (library : FunctionReplacementLibraryType) : Word :=
  match P.entryOf library with
  | some e => e.handle
  | none => 0

theorem entryOf_of_mem {e : RplHandling} (he : e ∈ P.rplHandles) : P.entryOf e.library = some e := by
  cases hf : P.entryOf e.library with
  | none =>
    have := List.find?_eq_none.mp hf e he
    simp at this
  | some e' =>
    rw [entry_unique (mem_of_entryOf hf) he (library_of_entryOf hf)]

theorem handleOf_of_mem {e : RplHandling} (he : e ∈ P.rplHandles) : P.handleOf e.library = e.handle := by
  rw [handleOf, entryOf_of_mem he]

theorem mem_of_handleOf (h : P.handleOf library ≠ 0) :
    ∃ e ∈ P.rplHandles, e.library = library ∧ e.handle = P.handleOf library := by
  unfold handleOf at h ⊢
  cases hf : P.entryOf library with
  | none =>
    rw [hf] at h
    exact absurd rfl h
  | some e => exact ⟨e, mem_of_entryOf hf, library_of_entryOf hf, rfl⟩

theorem handleOf_initial (library : FunctionReplacementLibraryType) : initial.handleOf library = 0 := by
  by_contra h
  obtain ⟨e, he, _, hh⟩ := mem_of_handleOf h
  obtain ⟨x, _, rfl⟩ := List.mem_map.mp he
  exact h hh.symm

theorem handleOf_mapHandles (P : FunctionAddressProvider) (f : RplHandling → Word)
    (library : FunctionReplacementLibraryType) :
    (P.mapHandles f).handleOf library = match P.entryOf library with
      | some e => f e
      | none => 0 := by
  unfold handleOf
  rw [entryOf_mapHandles]
  cases P.entryOf library <;> rfl

theorem handleOf_resetHandles (P : FunctionAddressProvider) (library : FunctionReplacementLibraryType) :
    P.resetHandles.handleOf library = 0 := by
  unfold resetHandles
  rw [handleOf_mapHandles]
  cases P.entryOf library <;> rfl

theorem handleOf_setHandle_ne {library' : FunctionReplacementLibraryType} (h : Word) (hne : library' ≠ library) :
    (P.setHandle library' h).handleOf library = P.handleOf library := by
  unfold setHandle
  rw [handleOf_mapHandles, handleOf]
  cases hf : P.entryOf library with
  | none => rfl
  | some e =>
    simp only [library_of_entryOf hf, Ne.symm hne, if_false]

theorem handleOf_setHandle_zero (P : FunctionAddressProvider) (library : FunctionReplacementLibraryType) :
    (P.setHandle library 0).handleOf library = 0 := by
  unfold setHandle
  rw [handleOf_mapHandles]
  cases hf : P.entryOf library with
  | none => rfl
  | some e =>
    simp only [library_of_entryOf hf, if_true]

/-- The reset of a handle is the reset of the library it is the handle of. -/
theorem handleOf_resetHandle_self (hlib : library ≠ .other) (h : P.getTypeForHandle module = library) :
    (P.resetHandle module).handleOf library = 0 := by
  unfold getTypeForHandle at h
  unfold resetHandle
  cases hf : P.rplHandles.find? fun e => e.handle = module with
  | none =>
    rw [hf] at h
    exact absurd h.symm hlib
  | some e =>
    rw [hf] at h
    simp only at h ⊢
    rw [h]
    exact handleOf_setHandle_zero P library

theorem handleOf_resetHandle_ne (h : P.getTypeForHandle module ≠ library) :
    (P.resetHandle module).handleOf library = P.handleOf library := by
  unfold getTypeForHandle at h
  unfold resetHandle
  cases hf : P.rplHandles.find? fun e => e.handle = module with
  | none => rfl
  | some e =>
    rw [hf] at h
    exact handleOf_setHandle_ne 0 h

/-- The cache knows the handle of a library, unless another library is known by the same handle. -/
theorem getTypeForHandle_eq_iff (hm : module ≠ 0) (hlib : library ≠ .other)
    (hone : ∀ library', library' ≠ library → P.handleOf library' ≠ module) :
    P.getTypeForHandle module = library ↔ P.handleOf library = module := by
  unfold getTypeForHandle
  cases hf : P.rplHandles.find? fun e => e.handle = module with
  | none =>
    constructor
    · intro h
      exact absurd h.symm hlib
    · intro h
      obtain ⟨e, he, _, hh⟩ := mem_of_handleOf (h.trans_ne hm)
      have := List.find?_eq_none.mp hf e he
      simp [hh, h] at this
  | some e =>
    have he : e ∈ P.rplHandles := List.mem_of_find?_eq_some hf
    have hmod : e.handle = module := by simpa using List.find?_some hf
    constructor
    · rintro rfl
      rw [handleOf_of_mem he, hmod]
    · intro _
      by_contra hne
      exact hone e.library hne ((handleOf_of_mem he).trans hmod)

end FunctionAddressProvider

/-! ## Lookups -/

/-- The handle the system reports for `library`. -/
def reported (E : Env) (library : FunctionReplacementLibraryType) : Word :=
  match rplTable.find? fun x => x.1 = library with
  | some (_, rplname) => (E.osDynLoadIsModuleLoaded rplname).2.getD 0
  | none => 0

theorem rplTable_find? (P : FunctionAddressProvider) (library : FunctionReplacementLibraryType) :
    (rplTable.find? fun x => x.1 = library) = (P.entryOf library).map fun e => (e.library, e.rplname) := by
  rw [← P.table, List.find?_map]
  rfl

/-- From the cached handle `h` to `h'`: a lookup that misses stores what the system reports. -/
structure LookedUp (asked : Prop) (w h h' : Word) : Prop where
  miss : h = 0 → asked → h' = w
  hit : ¬ (h = 0 ∧ asked) → h' = h

namespace LookedUp

variable {asked asked' : Prop} {w h h' h'' : Word}

theorem refl (hn : ¬ asked) : LookedUp asked w h h where
  miss := fun _ ha => absurd ha hn
  hit := fun _ => rfl

/-- A second lookup in the same system finds what the first one stored. -/
theorem trans (h₁ : LookedUp asked w h h') (h₂ : LookedUp asked' w h' h'') : LookedUp (asked ∨ asked') w h h'' := by
  constructor
  · intro h0 ha
    by_cases hfirst : asked
    · have hw := h₁.miss h0 hfirst
      by_cases hagain : h' = 0 ∧ asked'
      · exact h₂.miss hagain.1 hagain.2
      · exact (h₂.hit hagain).trans hw
    · have hh := h₁.hit fun hm => hfirst hm.2
      exact h₂.miss (hh.trans h0) (ha.resolve_left hfirst)
  · intro hn
    have hh := h₁.hit fun hm => hn ⟨hm.1, .inl hm.2⟩
    exact (h₂.hit fun hm => hn ⟨hh ▸ hm.1, .inr hm.2⟩).trans hh

theorem congr (hiff : asked ↔ asked') (hl : LookedUp asked w h h') : LookedUp asked' w h h' where
  miss := fun h0 ha => hl.miss h0 (hiff.mpr ha)
  hit := fun hn => hl.hit fun hm => hn ⟨hm.1, hiff.mp hm.2⟩

end LookedUp

section
variable {E : Env} {s s' : State} {p : Word} {b : Bool} {library library' : FunctionReplacementLibraryType}

theorem filled_self (E : Env) (P : FunctionAddressProvider) (library : FunctionReplacementLibraryType) :
    LookedUp True (reported E library) (P.handleOf library) ((filled E P library).handleOf library) := by
  unfold filled reported
  rw [FunctionAddressProvider.handleOf_mapHandles, rplTable_find? P, FunctionAddressProvider.handleOf]
  cases hf : P.entryOf library with
  | none => exact ⟨fun _ _ => rfl, fun _ => rfl⟩
  | some e =>
    simp only [FunctionAddressProvider.library_of_entryOf hf, if_true, Option.map_some]
    unfold handleAfter
    constructor
    · intro h0 _
      rw [if_pos h0]
    · intro hn
      rw [if_neg fun h0 => hn ⟨h0, trivial⟩]

theorem filled_ne (E : Env) (P : FunctionAddressProvider) (hne : library' ≠ library) :
    (filled E P library').handleOf library = P.handleOf library := by
  unfold filled
  rw [FunctionAddressProvider.handleOf_mapHandles, FunctionAddressProvider.handleOf]
  cases hf : P.entryOf library with
  | none => rfl
  | some e =>
    simp only [FunctionAddressProvider.library_of_entryOf hf, Ne.symm hne, if_false]

/-- `PatchFunction` would look the library of the record up. -/
def PatchedFunctionData.Asks (r : PatchedFunctionData) (library : FunctionReplacementLibraryType) : Prop :=
  r.isPatched = false ∧ r.isForExecutable = false ∧ r.library = some library

theorem updateFunctionAddresses_filled (hx : (s.objects p).isForExecutable = false)
    (hlib : (s.objects p).library = some library) (hne : library ≠ .other)
    (h : updateFunctionAddresses E s p = .ok (b, s')) :
    s'.gFunctionAddressProvider = filled E s.gFunctionAddressProvider library := by
  rw [updateFunctionAddresses_byLibrary hx hlib hne] at h
  split at h
  · cases h
  rename_i functionName _
  rw [← rplHandleOf_filled, ← getEffectiveAddressOfFunction_provider s library functionName]
  simp only at h
  split at h
  · cases h
    rfl
  · obtain ⟨_, _, rfl⟩ := storeFunctionAddresses_ok h
    rfl

/-- Only a library other than `LIBRARY_OTHER` is looked up. -/
theorem updateFunctionAddresses_unasked
    (hno : ∀ library, library ≠ .other → ¬ ((s.objects p).isForExecutable = false ∧
      (s.objects p).library = some library)) (h : updateFunctionAddresses E s p = .ok (b, s')) :
    s'.gFunctionAddressProvider = s.gFunctionAddressProvider := by
  unfold updateFunctionAddresses at h
  simp only at h
  split at h
  · split at h
    · cases h
    · cases h
      rfl
    · obtain ⟨_, _, rfl⟩ := storeFunctionAddresses_ok h
      rfl
  rename_i hx
  split at h
  · cases h
  · cases h
    rfl
  · rename_i library hne hlib
    exact absurd ⟨by simpa using hx, hlib⟩ (hno library fun e => hne (e ▸ rfl))

theorem patchFunction_lookedUp (hlib : library ≠ .other) (h : patchFunction E s p = .ok (b, s')) :
    LookedUp ((s.objects p).Asks library) (reported E library) (s.gFunctionAddressProvider.handleOf library)
      (s'.gFunctionAddressProvider.handleOf library) := by
  -- what the resolution does, in whichever branch it is
  have hresolve : ∀ {calls : List McpCall} {b' : Bool} {t : State}, (s.objects p).isPatched = false →
      updateFunctionAddresses E { s with mcpCalls := calls } p = .ok (b', t) →
      LookedUp ((s.objects p).Asks library) (reported E library) (s.gFunctionAddressProvider.handleOf library)
        (t.gFunctionAddressProvider.handleOf library) := by
    intro calls b' t hun hu
    by_cases hask : ∃ library', library' ≠ .other ∧ (s.objects p).isForExecutable = false ∧
        (s.objects p).library = some library'
    · obtain ⟨library', hne', hx, hl⟩ := hask
      rw [updateFunctionAddresses_filled (s := { s with mcpCalls := calls }) hx hl hne' hu]
      by_cases he : library' = library
      · subst he
        exact (filled_self E _ library').congr (iff_of_true trivial ⟨hun, hx, hl⟩)
      · rw [filled_ne E _ he]
        refine .refl fun ha => he ?_
        rw [ha.2.2] at hl
        exact (Option.some.inj hl).symm
    · rw [updateFunctionAddresses_unasked (s := { s with mcpCalls := calls }) (fun l hl hx => hask ⟨l, hl, hx⟩) hu]
      exact .refl fun ha => hask ⟨library, hlib, ha.2⟩
  rcases patchFunction_branches h with ⟨hp, _, rfl⟩ | ⟨hun, _, h₁⟩ | ⟨hun, _, s₁, h₁, h₂⟩ | ⟨hun, s₁, s₂, h₁, h₂, h⟩
  · exact .refl fun ha => Bool.false_ne_true (ha.1.symm.trans hp)
  · have hx : (s.objects p).isForExecutable = true := by
      by_contra hx
      rw [shouldBePatched_byLibrary (by simpa using hx)] at h₁
      cases h₁
    obtain ⟨calls, rfl⟩ := shouldBePatched_ok h₁
    exact .refl fun ha => Bool.false_ne_true (ha.2.1.symm.trans hx)
  · obtain ⟨calls, rfl⟩ := shouldBePatched_ok h₁
    exact hresolve hun h₂
  · obtain ⟨calls, rfl⟩ := shouldBePatched_ok h₁
    obtain ⟨_, _, _, w, _, rfl⟩ := applyPatch_ok h
    have hl := hresolve hun h₂
    exact hl

end

/-! ## Passes -/

section
variable {E : Env} {s s' : State} {library : FunctionReplacementLibraryType}

theorem forEach_patchFunction_lookedUp {ps : List Word} (hlib : library ≠ .other)
    (h : forEach (patchFunction E) s ps = .ok s') :
    LookedUp (∃ t p, Arrives (patchFunction E) s ps t p ∧ (t.objects p).Asks library) (reported E library)
      (s.gFunctionAddressProvider.handleOf library) (s'.gFunctionAddressProvider.handleOf library) := by
  induction ps generalizing s with
  | nil =>
    cases h
    refine .refl ?_
    rintro ⟨t, p, harr, _⟩
    cases harr.mem
  | cons p ps ih =>
    obtain ⟨b, s₁, hp, hrest⟩ := forEach_cons h
    refine ((patchFunction_lookedUp hlib hp).trans (ih hrest)).congr ?_
    simp only [arrives_cons_iff hp]
    constructor
    · rintro (hask | ⟨t, q, harr, hask⟩)
      · exact ⟨s, p, .inl ⟨rfl, rfl⟩, hask⟩
      · exact ⟨t, q, .inr harr, hask⟩
    · rintro ⟨t, q, ⟨rfl, rfl⟩ | harr, hask⟩
      · exact .inl hask
      · exact .inr ⟨t, q, harr, hask⟩

theorem restoreFunction_provider {p : Word} {b : Bool} (h : restoreFunction E s p = .ok (b, s')) :
    s'.gFunctionAddressProvider = s.gFunctionAddressProvider := by
  rcases restoreFunction_ok h with ⟨_, _, rfl⟩ | ⟨_, _, _, rfl⟩ | ⟨_, _, rfl⟩ <;> rfl

theorem forEach_restoreFunction_provider {ps : List Word} (h : forEach (restoreFunction E) s ps = .ok s') :
    s'.gFunctionAddressProvider = s.gFunctionAddressProvider :=
  forEach_induct (fun t => t.gFunctionAddressProvider = s.gFunctionAddressProvider)
    (fun _ _ _ _ _ hs h => (restoreFunction_provider h).trans hs) rfl h

end

/-! ## Events -/

/-- The event takes the handle of `library` out of the cache. -/
def Event.Drops (s : State) (library : FunctionReplacementLibraryType) : Event → Prop
  | .applicationEnds => True
  | .notify module .unloaded => s.gFunctionAddressProvider.getTypeForHandle module = library
  | _ => False

/-- The event calls `PatchFunction` for a record that asks for `library`. -/
def Event.Asks (E : Env) (s : State) (ev : Event) (library : FunctionReplacementLibraryType) : Prop :=
  ∃ t p, ev.Patches E s t p ∧ (t.objects p).Asks library

section
variable {E : Env} {s s' : State} {ev : Event} {library : FunctionReplacementLibraryType}

theorem add_lookedUp {fd : Option FunctionReplacementData} {res : AddResult} (hlib : library ≠ .other)
    (hrun : fpAddFunctionPatch E s fd = .ok (res, s')) :
    LookedUp ((Event.add fd).Asks E s library) (reported E library) (s.gFunctionAddressProvider.handleOf library)
      (s'.gFunctionAddressProvider.handleOf library) := by
  rcases fpAddFunctionPatch_ok hrun with ⟨hres, hcase⟩ | ⟨hres, h0, d, b, s₁, s₂, rfl, ha, hp, rfl⟩
  · have hprovider : s'.gFunctionAddressProvider = s.gFunctionAddressProvider := by
      rcases hcase with rfl | ⟨d, s₁, _, ha, rfl⟩
      · rfl
      · exact (destroy_frame _ _).provider.trans (allocateDataForJumps_frame ha).provider
    rw [hprovider]
    refine .refl ?_
    rintro ⟨t, p, hpatch, _⟩
    cases hpatch with
    | added hv h0 ha => exact hres (fpAddFunctionPatch_success hv h0 ha hrun)
  · have hl := patchFunction_lookedUp hlib hp
    rw [(allocateDataForJumps_frame ha).provider] at hl
    refine hl.congr ⟨fun hask => ?_, ?_⟩
    · exact ⟨s₁, E.newObject, .added (fpAddFunctionPatch_version hrun hres) h0 ha, hask⟩
    · rintro ⟨t, p, hpatch, hask⟩
      cases hpatch with
      | added hv h0 ha' =>
        rw [ha] at ha'
        cases ha'
        exact hask

/-- A removal asks in its second loop only. -/
theorem remove_asks_iff {h : Word} {pre post : List Word} {s₁ : State} (hl : s.gPatchedFunctions = pre ++ h :: post)
    (hn : s.gPatchedFunctions.Nodup) (hp : (s.objects h).isPatched = true)
    (h₁ : forEach (restoreFunction E) s ((sameAddress s h post).reverse ++ [h]) = .ok s₁) :
    (Event.remove h).Asks E s library ↔ (s₁.objects h).isPatched = true ∧ ∃ t p,
      Arrives (patchFunction E) { s₁ with gPatchedFunctions := pre ++ post } (sameAddress s h post) t p ∧
        (t.objects p).Asks library := by
  constructor
  · rintro ⟨t, p, hpatch, hask⟩
    cases hpatch with
    | reapplied hl' _ h₁' hp₁ harr =>
      have hn' := hn
      rw [hl] at hn'
      obtain ⟨rfl, rfl⟩ := nodup_split_unique hn' (hl.symm.trans hl')
      rw [h₁] at h₁'
      cases h₁'
      exact ⟨hp₁, t, p, harr, hask⟩
  · rintro ⟨hp₁, t, p, harr, hask⟩
    exact ⟨t, p, .reapplied hl hp h₁ hp₁ harr, hask⟩

theorem remove_lookedUp {h : Word} {st : FunctionPatcherStatus} (hlib : library ≠ .other)
    (hn : s.gPatchedFunctions.Nodup) (hrun : fpRemoveFunctionPatch E s h = .ok (st, s')) :
    LookedUp ((Event.remove h).Asks E s library) (reported E library) (s.gFunctionAddressProvider.handleOf library)
      (s'.gFunctionAddressProvider.handleOf library) := by
  by_cases hm : h ∈ s.gPatchedFunctions
  · obtain ⟨pre, post, hl⟩ := List.append_of_mem hm
    obtain ⟨_, ⟨hun, rfl⟩ | ⟨hp, s₁, h₁, hcase⟩⟩ := fpRemoveFunctionPatch_ok hl hn hrun
    · rw [(destroy_frame _ _).provider]
      refine .refl ?_
      rintro ⟨t, p, hpatch, _⟩
      cases hpatch with
      | reapplied _ hp => exact Bool.false_ne_true (hun.symm.trans hp)
    have hprovider : s₁.gFunctionAddressProvider = s.gFunctionAddressProvider := forEach_restoreFunction_provider h₁
    rcases hcase with ⟨hun₁, rfl⟩ | ⟨hp₁, s₂, h₂, rfl⟩
    · rw [(destroy_frame _ _).provider, hprovider]
      refine .refl fun hask => ?_
      exact Bool.false_ne_true (hun₁.symm.trans ((remove_asks_iff hl hn hp h₁).mp hask).1)
    · have hpass := forEach_patchFunction_lookedUp hlib h₂
      rw [(destroy_frame _ _).provider, ← hprovider]
      exact hpass.congr ((remove_asks_iff hl hn hp h₁).trans (and_iff_right hp₁)).symm
  · rw [fpRemoveFunctionPatch_not_mem hm] at hrun
    cases hrun
    refine .refl ?_
    rintro ⟨t, p, hpatch, _⟩
    cases hpatch with
    | reapplied hl => exact hm (by rw [hl]; simp)

theorem loaded_lookedUp {module : Word} (hlib : library ≠ .other) (hrun : notifyCallback E s module .loaded = .ok s') :
    LookedUp ((Event.notify module .loaded).Asks E s library) (reported E library)
      (s.gFunctionAddressProvider.handleOf library) (s'.gFunctionAddressProvider.handleOf library) := by
  refine (forEach_patchFunction_lookedUp hlib hrun).congr ⟨?_, ?_⟩
  · rintro ⟨t, p, harr, hask⟩
    exact ⟨t, p, .loaded harr, hask⟩
  · rintro ⟨t, p, hpatch, hask⟩
    cases hpatch with
    | loaded harr => exact ⟨t, p, harr, hask⟩

theorem applicationStarts_lookedUp (hlib : library ≠ .other) (hrun : applicationStarts E s = .ok s') :
    LookedUp (Event.applicationStarts.Asks E s library) (reported E library)
      (s.gFunctionAddressProvider.handleOf library) (s'.gFunctionAddressProvider.handleOf library) := by
  unfold applicationStarts at hrun
  split at hrun
  · rename_i hupid
    cases hrun
    refine .refl ?_
    rintro ⟨t, p, hpatch, _⟩
    cases hpatch with
    | started hupid' => exact hupid' hupid
  · rename_i hupid
    have hcheck : Cleared s (checkIfPatchedFunctionsAreStillInMemory E s) := checkLoop_cleared E _ s {}
    have hpass := forEach_patchFunction_lookedUp hlib hrun
    simp only [hcheck.provider, hcheck.list] at hpass
    refine hpass.congr ⟨?_, ?_⟩
    · rintro ⟨t, p, harr, hask⟩
      exact ⟨t, p, .started hupid harr, hask⟩
    · rintro ⟨t, p, hpatch, hask⟩
      cases hpatch with
      | started _ harr => exact ⟨t, p, harr, hask⟩

/-- An event that drops the handle leaves none behind. -/
theorem Event.Drops.handleOf (hlib : library ≠ .other) (hd : ev.Drops s library) (hrun : ev.run E s = .ok s') :
    s'.gFunctionAddressProvider.handleOf library = 0 := by
  cases ev with
  | applicationEnds =>
    cases hrun
    exact FunctionAddressProvider.handleOf_resetHandles _ _
  | notify module reason =>
    cases reason with
    | loaded => exact hd.elim
    | unloaded =>
      rw [unloaded_provider hrun]
      exact FunctionAddressProvider.handleOf_resetHandle_self hlib hd
  | add fd => exact hd.elim
  | remove h => exact hd.elim
  | applicationStarts => exact hd.elim

/-- Any other event looks the library up if it asks for it. -/
theorem Event.run_lookedUp (hlib : library ≠ .other) (hn : s.gPatchedFunctions.Nodup) (hd : ¬ ev.Drops s library)
    (hrun : ev.run E s = .ok s') :
    LookedUp (ev.Asks E s library) (reported E library) (s.gFunctionAddressProvider.handleOf library)
      (s'.gFunctionAddressProvider.handleOf library) := by
  cases ev with
  | add fd =>
    obtain ⟨res, hadd⟩ := Event.run_ok_add hrun
    exact add_lookedUp hlib hadd
  | remove h =>
    obtain ⟨st, hremove⟩ := Event.run_ok_remove hrun
    exact remove_lookedUp hlib hn hremove
  | notify module reason =>
    cases reason with
    | loaded => exact loaded_lookedUp hlib hrun
    | unloaded =>
      rw [unloaded_provider hrun, FunctionAddressProvider.handleOf_resetHandle_ne hd]
      refine .refl ?_
      rintro ⟨t, p, hpatch, _⟩
      cases hpatch
  | applicationStarts => exact applicationStarts_lookedUp hlib hrun
  | applicationEnds => exact absurd trivial hd

end

/-! ## Runs -/

section
variable {E : Env} {s s' s₀ : State} {library : FunctionReplacementLibraryType} {module : Word}

/-- A step that does not drop the handle of `library`. -/
inductive KeepsHandle (library : FunctionReplacementLibraryType) : State → State → Prop
  | event {s s' : State} (E : Env) (ev : Event) : E.newObject ∉ s.gPatchedFunctions → ev.run E s = .ok s' →
      ¬ ev.Drops s library → KeepsHandle library s s'
  | memory (s : State) (mem : Word → Word) : KeepsHandle library s { s with mem := mem }

theorem KeepsHandle.step (h : KeepsHandle library s s') : Step s s' := by
  cases h with
  | event E ev hnew hrun _ => exact .event E ev hnew hrun
  | memory mem => exact .memory s mem

theorem KeepsHandle.handleOf (hlib : library ≠ .other) (hn : s.gPatchedFunctions.Nodup) (h : KeepsHandle library s s')
    (h0 : s.gFunctionAddressProvider.handleOf library ≠ 0) :
    s'.gFunctionAddressProvider.handleOf library = s.gFunctionAddressProvider.handleOf library := by
  cases h with
  | event E ev _ hrun hd => exact (Event.run_lookedUp hlib hn hd hrun).hit fun hm => h0 hm.1
  | memory mem => rfl

/-- On the way to `s` an event asks for `library` with no handle cached, the system reports `module`,
and no event drops the handle since. -/
def HandleKept (s₀ s : State) (library : FunctionReplacementLibraryType) (module : Word) : Prop :=
  ∃ (s₁ s₂ : State) (E : Env) (ev : Event), Relation.ReflTransGen Step s₀ s₁ ∧ E.newObject ∉ s₁.gPatchedFunctions ∧
    ev.run E s₁ = .ok s₂ ∧ s₁.gFunctionAddressProvider.handleOf library = 0 ∧ ev.Asks E s₁ library ∧
    reported E library = module ∧ Relation.ReflTransGen (KeepsHandle library) s₂ s

theorem HandleKept.tail (h : HandleKept s₀ s library module) (hk : KeepsHandle library s s') :
    HandleKept s₀ s' library module := by
  obtain ⟨s₁, s₂, E, ev, hs₁, hnew, hrun, h0, hask, hrep, hkeep⟩ := h
  exact ⟨s₁, s₂, E, ev, hs₁, hnew, hrun, h0, hask, hrep, hkeep.tail hk⟩

theorem Event.Asks.not_drops {ev : Event} (h : ev.Asks E s library) : ¬ ev.Drops s library := by
  obtain ⟨t, p, hpatch, _⟩ := h
  cases hpatch with
  | added _ _ _ => exact id
  | loaded _ => exact id
  | started _ _ => exact id
  | reapplied _ _ _ _ _ => exact id

theorem HandleKept.handleOf (h₀ : s₀.Initial) (hlib : library ≠ .other) (hm : module ≠ 0)
    (h : HandleKept s₀ s library module) : s.gFunctionAddressProvider.handleOf library = module := by
  obtain ⟨s₁, s₂, E, ev, hs₁, hnew, hrun, h0, hask, hrep, hkeep⟩ := h
  have hn₁ : s₁.gPatchedFunctions.Nodup := Reachable.nodup ⟨s₀, h₀, hs₁⟩
  have hs₂ : Relation.ReflTransGen Step s₀ s₂ := hs₁.tail (.event E ev hnew hrun)
  have hfirst : s₂.gFunctionAddressProvider.handleOf library = module :=
    ((Event.run_lookedUp hlib hn₁ hask.not_drops hrun).miss h0 hask).trans hrep
  -- the run has come to the state as well, so that its handles are distinct
  suffices h : Relation.ReflTransGen Step s₀ s ∧ s.gFunctionAddressProvider.handleOf library = module from h.2
  induction hkeep with
  | refl => exact ⟨hs₂, hfirst⟩
  | @tail t s' _ hstep ih =>
    have hn : t.gPatchedFunctions.Nodup := Reachable.nodup ⟨s₀, h₀, ih.1⟩
    exact ⟨ih.1.tail hstep.step, (hstep.handleOf hlib hn (ih.2.trans_ne hm)).trans ih.2⟩

/-- The cache holds a handle in just the states that have kept it. -/
theorem handleOf_iff_kept (h₀ : s₀.Initial) (hs : Relation.ReflTransGen Step s₀ s) (hlib : library ≠ .other)
    (hm : module ≠ 0) :
    s.gFunctionAddressProvider.handleOf library = module ↔ HandleKept s₀ s library module := by
  refine ⟨fun h => ?_, fun h => h.handleOf h₀ hlib hm⟩
  induction hs with
  | refl =>
    rw [h₀.provider, FunctionAddressProvider.handleOf_initial] at h
    exact absurd h.symm hm
  | @tail t s' hs step ih =>
    cases step with
    | memory mem => exact (ih h).tail (.memory t mem)
    | event E ev hnew hrun =>
      by_cases hd : ev.Drops t library
      · rw [hd.handleOf hlib hrun] at h
        exact absurd h.symm hm
      have hl := Event.run_lookedUp hlib (Reachable.nodup ⟨s₀, h₀, hs⟩) hd hrun
      by_cases hask : t.gFunctionAddressProvider.handleOf library = 0 ∧ ev.Asks E t library
      · exact ⟨t, s', E, ev, hs, hnew, hrun, hask.1, hask.2, (hl.miss hask.1 hask.2).symm.trans h, .refl⟩
      · exact (ih ((hl.hit hask).symm.trans h)).tail (.event E ev hnew hrun hd)

/-- **The histories an unload is seen in.** As long as no other library is known by the handle: it was
looked up and kept, or the old code is gone wherever a record of the library is patched. -/
theorem unloadSeen_iff_kept (h₀ : s₀.Initial) (hs : Relation.ReflTransGen Step s₀ s) (hlib : library ≠ .other)
    (hm : module ≠ 0)
    (hone : ∀ library', library' ≠ library → s.gFunctionAddressProvider.handleOf library' ≠ module) :
    UnloadSeen E s module library ↔ HandleKept s₀ s library module ∨
      ∀ p ∈ s.gPatchedFunctions, (s.objects p).isOfLibrary library = true → (s.objects p).isPatched = true →
        OldCodeGone E s module (s.objects p).realPhysicalFunctionAddress := by
  unfold UnloadSeen
  rw [FunctionAddressProvider.getTypeForHandle_eq_iff hm hlib hone, handleOf_iff_kept h₀ hs hlib hm]

end

/-- The end of the application drops the handle, and the next one does not ask for a record that is
still patched. -/
example : coreinitPatched.gFunctionAddressProvider.handleOf .coreinit = 0x500 ∧
    (ran (plainState 0x7c0802a6) nextApplication).gFunctionAddressProvider.handleOf .coreinit = 0 := by
  decide +kernel

end FunctionPatcher
