import FunctionPatcher.Runs

/-!
# The handle cache and the loaded modules

The system loads and unloads modules while the module runs. A cached handle is
the handle of the entry's module as long as every unload is delivered, and a
handle is reused only afterwards.
-/

namespace FunctionPatcher

/-! ## The table -/

theorem rplTable_libraries_nodup : (rplTable.map Prod.fst).Nodup := by decide +kernel

theorem rplTable_rplnames_nodup : (rplTable.map Prod.snd).Nodup := by decide +kernel

namespace FunctionAddressProvider

variable {P : FunctionAddressProvider} {e e' : RplHandling}

theorem mem_rplTable (h : e ∈ P.rplHandles) : (e.library, e.rplname) ∈ rplTable := by
  rw [← P.table]
  exact List.mem_map.mpr ⟨e, h, rfl⟩

theorem rplname_eq (he : e ∈ P.rplHandles) (he' : e' ∈ P.rplHandles) (h : e.library = e'.library) :
    e.rplname = e'.rplname := by
  have := List.inj_on_of_nodup_map rplTable_libraries_nodup (mem_rplTable he) (mem_rplTable he') h
  exact congrArg Prod.snd this

theorem library_eq (he : e ∈ P.rplHandles) (he' : e' ∈ P.rplHandles) (h : e.rplname = e'.rplname) :
    e.library = e'.library := by
  have := List.inj_on_of_nodup_map rplTable_rplnames_nodup (mem_rplTable he) (mem_rplTable he') h
  exact congrArg Prod.fst this

theorem mem_of_entryOf {library : FunctionReplacementLibraryType} (h : P.entryOf library = some e) :
    e ∈ P.rplHandles :=
  List.mem_of_find?_eq_some h

theorem library_of_entryOf {library : FunctionReplacementLibraryType} (h : P.entryOf library = some e) :
    e.library = library := by
  simpa using List.find?_some h

theorem mem_mapHandles {f : RplHandling → Word} (h : e ∈ (P.mapHandles f).rplHandles) :
    ∃ e₀ ∈ P.rplHandles, e = { e₀ with handle := f e₀ } := by
  obtain ⟨e₀, he₀, rfl⟩ := List.mem_map.mp h
  exact ⟨e₀, he₀, rfl⟩

end FunctionAddressProvider

/-! ## Modules coming and going -/

/-- The module's state, the handle of each loaded module, and the unloads that have not been
delivered yet, by name and handle. -/
structure Modules where
  state : State
  loaded : String → Option Word
  pending : List (String × Word)

/-- `OSDynLoad_IsModuleLoaded` answers with the handle of a loaded module, or stores nothing. -/
def Env.Reports (E : Env) (loaded : String → Option Word) : Prop :=
  ∀ name, (E.osDynLoadIsModuleLoaded name).2 = none ∨
    ((E.osDynLoadIsModuleLoaded name).1 = OS_DYNLOAD_OK ∧ (E.osDynLoadIsModuleLoaded name).2 = loaded name)

/-- `other` is everything the module does between calls of `PatchFunction`. -/
inductive ModuleStep : Modules → Modules → Prop
  | load {w : Modules} (name : String) (h : Word) : w.loaded name = none → h ≠ 0 →
      (∀ name', w.loaded name' ≠ some h) → (∀ name', (name', h) ∉ w.pending) →
      ModuleStep w { w with loaded := Function.update w.loaded name (some h) }
  | unload {w : Modules} (name : String) (h : Word) : w.loaded name = some h →
      ModuleStep w { w with loaded := Function.update w.loaded name none, pending := (name, h) :: w.pending }
  | patch {w : Modules} (E : Env) (p : Word) (b : Bool) (s' : State) : E.Reports w.loaded →
      patchFunction E w.state p = .ok (b, s') → ModuleStep w { w with state := s' }
  | notifyLoaded {w : Modules} (E : Env) (module : Word) (s' : State) : E.Reports w.loaded →
      notifyCallback E w.state module .loaded = .ok s' → ModuleStep w { w with state := s' }
  | notifyUnloaded {w : Modules} (E : Env) (module : Word) (s' : State) :
      notifyCallback E w.state module .unloaded = .ok s' →
      ModuleStep w { w with state := s', pending := w.pending.filter fun u => u.2 ≠ module }
  | applicationEnds {w : Modules} : ModuleStep w { w with state := applicationEnds w.state }
  | other {w : Modules} (s' : State) :
      s'.gFunctionAddressProvider = w.state.gFunctionAddressProvider → ModuleStep w { w with state := s' }

/-- Different modules have different handles, none of them null, and nothing is pending. -/
structure Modules.Initial (w : Modules) : Prop where
  state : w.state.Initial
  distinct : ∀ name name' h, w.loaded name = some h → w.loaded name' = some h → name = name'
  nonzero : ∀ name, w.loaded name ≠ some 0
  pending : w.pending = []

/-! ## The invariant -/

def HandlesSound (P : FunctionAddressProvider) (loaded : String → Option Word)
    (pending : List (String × Word)) : Prop :=
  ∀ e ∈ P.rplHandles, e.handle ≠ 0 → loaded e.rplname = some e.handle ∨ (e.rplname, e.handle) ∈ pending

structure CacheSound (w : Modules) : Prop where
  distinct : ∀ name name' h, w.loaded name = some h → w.loaded name' = some h → name = name'
  pendingGone : ∀ name h, (name, h) ∈ w.pending → ∀ name', w.loaded name' ≠ some h
  pendingDistinct : ∀ name name' h, (name, h) ∈ w.pending → (name', h) ∈ w.pending → name = name'
  handles : HandlesSound w.state.gFunctionAddressProvider w.loaded w.pending

section
variable {E : Env} {P : FunctionAddressProvider} {loaded : String → Option Word} {pending : List (String × Word)}

theorem rplHandleOf_sound (hE : E.Reports loaded) (hP : HandlesSound P loaded pending)
    (library : FunctionReplacementLibraryType) : HandlesSound (rplHandleOf E P library).2 loaded pending := by
  unfold rplHandleOf
  cases he : P.entryOf library with
  | none => exact hP
  | some e =>
    have hmem : e ∈ P.rplHandles := FunctionAddressProvider.mem_of_entryOf he
    have hlib : e.library = library := FunctionAddressProvider.library_of_entryOf he
    simp only
    by_cases h0 : e.handle = 0
    · rw [if_pos h0]
      intro x hx hx0
      obtain ⟨x₀, hx₀, rfl⟩ := FunctionAddressProvider.mem_mapHandles hx
      simp only at hx0 ⊢
      by_cases hl : x₀.library = library
      · -- the entry that is filled
        rw [if_pos hl] at hx0 ⊢
        have hname : x₀.rplname = e.rplname := FunctionAddressProvider.rplname_eq hx₀ hmem (hl.trans hlib.symm)
        rcases hE e.rplname with hnone | ⟨_, hsome⟩
        · rw [hnone] at hx0
          exact absurd rfl hx0
        · left
          rw [hname, ← hsome]
          cases hs : (E.osDynLoadIsModuleLoaded e.rplname).2 with
          | none =>
            rw [hs] at hx0
            exact absurd rfl hx0
          | some h => rfl
      · rw [if_neg hl] at hx0 ⊢
        exact hP x₀ hx₀ hx0
    · rw [if_neg h0]
      exact hP

theorem getEffectiveAddressOfFunction_provider (s : State) (library : FunctionReplacementLibraryType)
    (functionName : String) : (getEffectiveAddressOfFunction E s library functionName).2 =
      (rplHandleOf E s.gFunctionAddressProvider library).2 := by
  unfold getEffectiveAddressOfFunction
  split
  · rename_i h
    rw [h]
  · rename_i h
    rw [h]
    simp only
    split <;> rfl

theorem updateFunctionAddresses_provider {s s' : State} {p : Word} {b : Bool}
    (h : updateFunctionAddresses E s p = .ok (b, s')) :
    s'.gFunctionAddressProvider = s.gFunctionAddressProvider ∨
    ∃ library, s'.gFunctionAddressProvider = (rplHandleOf E s.gFunctionAddressProvider library).2 := by
  unfold updateFunctionAddresses at h
  simp only at h
  split at h
  · left
    split at h
    · cases h
    · cases h
      rfl
    · obtain ⟨_, _, rfl⟩ := storeFunctionAddresses_ok h
      rfl
  · split at h
    · cases h
    · cases h
      exact .inl rfl
    · rename_i library _ _
      right
      refine ⟨library, ?_⟩
      split at h
      · cases h
      · rw [← getEffectiveAddressOfFunction_provider s library]
        split at h
        · cases h
          rfl
        · obtain ⟨_, _, rfl⟩ := storeFunctionAddresses_ok h
          rfl

theorem patchFunction_provider {s s' : State} {p : Word} {b : Bool} (h : patchFunction E s p = .ok (b, s')) :
    s'.gFunctionAddressProvider = s.gFunctionAddressProvider ∨
    ∃ library, s'.gFunctionAddressProvider = (rplHandleOf E s.gFunctionAddressProvider library).2 := by
  rcases patchFunction_branches h with ⟨_, _, rfl⟩ | ⟨_, _, h₁⟩ | ⟨_, _, s₁, h₁, h₂⟩ | ⟨_, s₁, s₂, h₁, h₂, h⟩
  · exact .inl rfl
  · obtain ⟨calls, rfl⟩ := shouldBePatched_ok h₁
    exact .inl rfl
  · obtain ⟨calls, rfl⟩ := shouldBePatched_ok h₁
    have := updateFunctionAddresses_provider h₂
    exact this
  · obtain ⟨calls, rfl⟩ := shouldBePatched_ok h₁
    obtain ⟨_, _, _, w, _, rfl⟩ := applyPatch_ok h
    have := updateFunctionAddresses_provider h₂
    exact this

theorem patchFunction_sound {s s' : State} {p : Word} {b : Bool} (hE : E.Reports loaded)
    (hP : HandlesSound s.gFunctionAddressProvider loaded pending) (h : patchFunction E s p = .ok (b, s')) :
    HandlesSound s'.gFunctionAddressProvider loaded pending := by
  rcases patchFunction_provider h with e | ⟨library, e⟩
  · rw [e]
    exact hP
  · rw [e]
    exact rplHandleOf_sound hE hP library

end

section
variable {P : FunctionAddressProvider} {loaded : String → Option Word} {pending : List (String × Word)}

theorem CacheSound.library_eq {w : Modules} (hw : CacheSound w) {e e' : RplHandling}
    (he : e ∈ w.state.gFunctionAddressProvider.rplHandles) (he' : e' ∈ w.state.gFunctionAddressProvider.rplHandles)
    (h : e.handle = e'.handle) (h0 : e.handle ≠ 0) : e.library = e'.library := by
  have h0' : e'.handle ≠ 0 := h ▸ h0
  apply FunctionAddressProvider.library_eq he he'
  rcases hw.handles e he h0 with hl | hp
  · rcases hw.handles e' he' h0' with hl' | hp'
    · exact hw.distinct _ _ _ hl (h ▸ hl')
    · exact absurd (h ▸ hl) (hw.pendingGone _ _ hp' _)
  · rcases hw.handles e' he' h0' with hl' | hp'
    · exact absurd hl' (hw.pendingGone _ _ (h ▸ hp) _)
    · exact hw.pendingDistinct _ _ _ hp (h ▸ hp')

theorem CacheSound.resetHandle {w : Modules} (hw : CacheSound w) (module : Word) :
    HandlesSound (w.state.gFunctionAddressProvider.resetHandle module) w.loaded
      (w.pending.filter fun u => u.2 ≠ module) := by
  have hkeep : ∀ e ∈ w.state.gFunctionAddressProvider.rplHandles, e.handle ≠ 0 → e.handle ≠ module →
      w.loaded e.rplname = some e.handle ∨ (e.rplname, e.handle) ∈ w.pending.filter fun u => u.2 ≠ module := by
    intro e he h0 hm
    rcases hw.handles e he h0 with hl | hp
    · exact .inl hl
    · exact .inr (List.mem_filter.mpr ⟨hp, by simpa using hm⟩)
  unfold FunctionAddressProvider.resetHandle
  cases hf : w.state.gFunctionAddressProvider.rplHandles.find? fun e => e.handle = module with
  | none =>
    intro e he h0
    have := List.find?_eq_none.mp hf e he
    exact hkeep e he h0 (by simpa using this)
  | some e₀ =>
    have he₀ := List.mem_of_find?_eq_some hf
    have hm₀ : e₀.handle = module := by simpa using List.find?_some hf
    intro x hx hx0
    obtain ⟨e, he, rfl⟩ := FunctionAddressProvider.mem_mapHandles hx
    simp only at hx0 ⊢
    by_cases hl : e.library = e₀.library
    · rw [if_pos hl] at hx0
      exact absurd rfl hx0
    · rw [if_neg hl] at hx0 ⊢
      apply hkeep e he hx0
      intro hm
      exact hl (hw.library_eq he he₀ (hm.trans hm₀.symm) hx0)

theorem unloaded_provider {E : Env} {s s' : State} {module : Word}
    (h : notifyCallback E s module .unloaded = .ok s') :
    s'.gFunctionAddressProvider = s.gFunctionAddressProvider.resetHandle module := by
  simp only [notifyCallback] at h
  cases h
  refine (checkLoop_cleared E _ _ _).provider.trans ?_
  show FunctionAddressProvider.resetHandle (State.gFunctionAddressProvider _) module = _
  split
  · rw [(clearLibrary_cleared _ _ s).provider]
  · rfl

theorem CacheSound.load {w : Modules} {name : String} {h : Word} (hw : CacheSound w) (hnone : w.loaded name = none)
    (hfresh : ∀ name', w.loaded name' ≠ some h) (hnot : ∀ name', (name', h) ∉ w.pending) :
    CacheSound { w with loaded := Function.update w.loaded name (some h) } := by
  refine ⟨?_, ?_, hw.pendingDistinct, ?_⟩
  · intro n n' h' hn hn'
    simp only [Function.update_apply] at hn hn'
    split at hn <;> split at hn'
    · rename_i e e'
      exact e.trans e'.symm
    · cases hn
      exact absurd hn' (hfresh n')
    · cases hn'
      exact absurd hn (hfresh n)
    · exact hw.distinct n n' h' hn hn'
  · intro n h' hp n'
    simp only [Function.update_apply]
    split
    · intro e
      cases e
      exact hnot n hp
    · exact hw.pendingGone n h' hp n'
  · intro e he he0
    refine (hw.handles e he he0).imp_left fun hl => ?_
    simp only [Function.update_apply]
    split
    · rename_i hname
      rw [hname, hnone] at hl
      cases hl
    · exact hl

/-- The handles of the module stay in the cache until its unload is delivered. -/
theorem CacheSound.unload {w : Modules} {name : String} {h : Word} (hw : CacheSound w) (hname : w.loaded name = some h) :
    CacheSound { w with loaded := Function.update w.loaded name none, pending := (name, h) :: w.pending } := by
  refine ⟨?_, ?_, ?_, ?_⟩
  · intro n n' h' hn hn'
    simp only [Function.update_apply] at hn hn'
    split at hn
    · cases hn
    split at hn'
    · cases hn'
    exact hw.distinct n n' h' hn hn'
  · intro n h' hp n'
    simp only [Function.update_apply]
    split
    · intro e
      cases e
    · rename_i hne
      rcases List.mem_cons.mp hp with e | hp
      · cases e
        intro hn'
        exact hne (hw.distinct _ _ _ hn' hname)
      · exact hw.pendingGone n h' hp n'
  · intro n n' h' hn hn'
    rcases List.mem_cons.mp hn with e | hn <;> rcases List.mem_cons.mp hn' with e' | hn'
    · cases e
      cases e'
      rfl
    · cases e
      exact absurd hname (hw.pendingGone _ _ hn' _)
    · cases e'
      exact absurd hname (hw.pendingGone _ _ hn _)
    · exact hw.pendingDistinct n n' h' hn hn'
  · intro e he he0
    rcases hw.handles e he he0 with hl | hp
    · by_cases hn : e.rplname = name
      · right
        rw [hn, hname] at hl
        cases hl
        rw [hn]
        exact List.mem_cons_self ..
      · left
        simp only [Function.update_apply, if_neg hn]
        exact hl
    · exact .inr (List.mem_cons_of_mem _ hp)

theorem CacheSound.notifyUnloaded {w : Modules} {E : Env} {module : Word} {s' : State} (hw : CacheSound w)
    (hrun : notifyCallback E w.state module .unloaded = .ok s') :
    CacheSound { w with state := s', pending := w.pending.filter fun u => u.2 ≠ module } := by
  refine ⟨hw.distinct, ?_, ?_, ?_⟩
  · intro n h hp
    exact hw.pendingGone n h (List.mem_of_mem_filter hp)
  · intro n n' h hn hn'
    exact hw.pendingDistinct n n' h (List.mem_of_mem_filter hn) (List.mem_of_mem_filter hn')
  · show HandlesSound s'.gFunctionAddressProvider _ _
    rw [unloaded_provider hrun]
    exact hw.resetHandle module

theorem ModuleStep.sound {w w' : Modules} (hstep : ModuleStep w w') (hw : CacheSound w) : CacheSound w' := by
  cases hstep with
  | load name h hnone h0 hfresh hnot => exact hw.load hnone hfresh hnot
  | unload name h hname => exact hw.unload hname
  | patch E p b s' hE hrun => exact { hw with handles := patchFunction_sound hE hw.handles hrun }
  | notifyLoaded E module s' hE hrun =>
    refine { hw with handles := ?_ }
    exact forEach_induct (fun t => HandlesSound t.gFunctionAddressProvider w.loaded w.pending)
      (fun _ _ _ _ _ hs h => patchFunction_sound hE hs h) hw.handles hrun
  | notifyUnloaded E module s' hrun => exact hw.notifyUnloaded hrun
  | applicationEnds =>
    refine { hw with handles := ?_ }
    intro e he he0
    obtain ⟨e₀, _, rfl⟩ := FunctionAddressProvider.mem_mapHandles he
    exact absurd rfl he0
  | other s' hP =>
    refine { hw with handles := ?_ }
    show HandlesSound s'.gFunctionAddressProvider _ _
    rw [hP]
    exact hw.handles

theorem cacheSound_of_steps {w₀ w : Modules} (h₀ : w₀.Initial) (hrun : Relation.ReflTransGen ModuleStep w₀ w) :
    CacheSound w := by
  induction hrun with
  | refl =>
    refine ⟨h₀.distinct, ?_, ?_, ?_⟩
    · rw [h₀.pending]
      intro n h hp
      cases hp
    · rw [h₀.pending]
      intro n n' h hp
      cases hp
    · rw [h₀.state.provider]
      intro e he he0
      obtain ⟨x, _, rfl⟩ := List.mem_map.mp he
      exact absurd rfl he0
  | tail _ step ih => exact step.sound ih

end

/-! ## Uses of a handle -/

def CurrentHandle (w : Modules) (library : FunctionReplacementLibraryType) (h : Word) : Prop :=
  ∃ rplname, (library, rplname) ∈ rplTable ∧ w.loaded rplname = some h

/-- The unload of the module in the library's entry, if any, has been delivered. -/
def UnloadDelivered (w : Modules) (library : FunctionReplacementLibraryType) : Prop :=
  ∀ e, w.state.gFunctionAddressProvider.entryOf library = some e → (e.rplname, e.handle) ∉ w.pending

theorem CacheSound.rplHandleOf_current {w : Modules} (hw : CacheSound w) {E : Env} (hE : E.Reports w.loaded)
    {library : FunctionReplacementLibraryType} (hdel : UnloadDelivered w library) {h : Word}
    (hh : (rplHandleOf E w.state.gFunctionAddressProvider library).1 = some h) : CurrentHandle w library h := by
  unfold rplHandleOf at hh
  cases he : w.state.gFunctionAddressProvider.entryOf library with
  | none =>
    rw [he] at hh
    cases hh
  | some e =>
    have hmem : e ∈ w.state.gFunctionAddressProvider.rplHandles := FunctionAddressProvider.mem_of_entryOf he
    have hlib : e.library = library := FunctionAddressProvider.library_of_entryOf he
    have htable := FunctionAddressProvider.mem_rplTable hmem
    rw [hlib] at htable
    rw [he] at hh
    simp only at hh
    by_cases h0 : e.handle = 0
    · simp only [if_pos h0] at hh
      split at hh
      · cases hh
      · rename_i hok
        rw [not_or] at hok
        rcases hE e.rplname with hnone | ⟨_, hsome⟩
        · rw [hnone] at hok
          exact absurd rfl hok.2
        · cases hs : (E.osDynLoadIsModuleLoaded e.rplname).2 with
          | none =>
            rw [hs] at hok
            exact absurd rfl hok.2
          | some h' =>
            rw [hs] at hh hsome
            cases hh
            exact ⟨e.rplname, htable, hsome.symm⟩
    · simp only [if_neg h0] at hh
      cases hh
      rcases hw.handles e hmem h0 with hl | hp
      · exact ⟨e.rplname, htable, hl⟩
      · exact absurd hp (hdel e he)

/-- **No lookup on an unloaded module.** In every state of every run a cached handle is that of the
loaded module, unless its unload is still to be delivered. Once it is, resolving an export of the
library asks `OSDynLoad_FindExport` about the current handle only: the answers for other handles do
not matter. -/
theorem handles_current {w₀ w : Modules} (h₀ : w₀.Initial) (hrun : Relation.ReflTransGen ModuleStep w₀ w) :
    (∀ e ∈ w.state.gFunctionAddressProvider.rplHandles, e.handle ≠ 0 →
      (e.rplname, e.handle) ∉ w.pending → w.loaded e.rplname = some e.handle) ∧
    ∀ (E : Env) (library : FunctionReplacementLibraryType) (functionName : String) (f : Word → String → Word),
      E.Reports w.loaded → UnloadDelivered w library →
      (∀ h, CurrentHandle w library h → f h = E.osDynLoadFindExport h) →
      getEffectiveAddressOfFunction { E with osDynLoadFindExport := f } w.state library functionName =
        getEffectiveAddressOfFunction E w.state library functionName := by
  have hw := cacheSound_of_steps h₀ hrun
  refine ⟨?_, ?_⟩
  · intro e he h0 hp
    exact (hw.handles e he h0).resolve_right hp
  · intro E library functionName f hE hdel hf
    have hsame : rplHandleOf { E with osDynLoadFindExport := f } w.state.gFunctionAddressProvider library =
        rplHandleOf E w.state.gFunctionAddressProvider library := rfl
    unfold getEffectiveAddressOfFunction
    rw [hsame]
    cases hh : rplHandleOf E w.state.gFunctionAddressProvider library with
    | mk h P =>
      cases h with
      | none => rfl
      | some h =>
        have hcur : CurrentHandle w library h := hw.rplHandleOf_current hE hdel (by rw [hh])
        simp only [hf h hcur]
        rfl

def registeredForCoreinit : State :=
  publishPatch (allocateDataForJumps (plainEnv 0x10 true)
    (constructed (plainEnv 0x10 true) (plainState 0x7c0802a6) (plainData .coreinit 0 0x1000 .all)) 0x10).2 0x10

/-- Coreinit comes back under another handle. -/
def reloadedEnv : Env :=
  { plainEnv 0x10 true with
    osDynLoadIsModuleLoaded := fun name => if name = "coreinit.rpl" then (OS_DYNLOAD_OK, some 0x600) else (1, none) }

def firstCoreinit : State :=
  afterPass registeredForCoreinit (notifyCallback (plainEnv 0x10 true) registeredForCoreinit 0x500 .loaded)

def withoutCoreinit : State :=
  afterPass firstCoreinit (notifyCallback (plainEnv 0x10 true) firstCoreinit 0x500 .unloaded)

def secondCoreinit : Modules where
  state := afterPass withoutCoreinit (notifyCallback reloadedEnv withoutCoreinit 0x600 .loaded)
  loaded := Function.update (fun _ => none) "coreinit.rpl" (some 0x600)
  pending := []

/-- What the answers for the old handle are does not matter. -/
def staleExports (h : Word) (functionName : String) : Word :=
  if h = 0x600 then reloadedEnv.osDynLoadFindExport h functionName else 0x03000000

theorem handles_current_coreinit :
    ⟨.coreinit, "coreinit.rpl", 0x600⟩ ∈ secondCoreinit.state.gFunctionAddressProvider.rplHandles ∧
    secondCoreinit.loaded "coreinit.rpl" = some 0x600 ∧
    getEffectiveAddressOfFunction { reloadedEnv with osDynLoadFindExport := staleExports } secondCoreinit.state
      .coreinit "f" = getEffectiveAddressOfFunction reloadedEnv secondCoreinit.state .coreinit "f" := by
  let w₀ : Modules := ⟨plainState 0x7c0802a6, fun _ => none, []⟩
  let w₁ : Modules := { w₀ with loaded := Function.update w₀.loaded "coreinit.rpl" (some 0x500) }
  let w₂ : Modules := { w₁ with state := registeredForCoreinit }
  let w₃ : Modules := { w₂ with state := firstCoreinit }
  let w₄ : Modules := ⟨firstCoreinit, Function.update w₃.loaded "coreinit.rpl" none, [("coreinit.rpl", 0x500)]⟩
  let w₅ : Modules := ⟨withoutCoreinit, w₄.loaded, []⟩
  let w₆ : Modules := { w₅ with loaded := Function.update w₅.loaded "coreinit.rpl" (some 0x600) }
  have h₀ : w₀.Initial := by
    refine ⟨plainState_initial _, ?_, ?_, rfl⟩
    · intro name name' h hn
      cases hn
    · intro name hn
      cases hn
  have hgone : w₅.loaded = fun _ => none := by
    funext name
    by_cases hn : name = "coreinit.rpl"
    · simp [w₅, w₄, hn]
    · simp [w₅, w₄, w₃, w₂, w₁, w₀, hn]
  have hloaded : w₆.loaded = secondCoreinit.loaded := congrArg (Function.update · "coreinit.rpl" (some 0x600)) hgone
  have hreports : (plainEnv 0x10 true).Reports w₁.loaded := by
    intro name
    by_cases hn : name = "coreinit.rpl"
    · subst hn
      exact .inr ⟨by decide, by simp [plainEnv, w₁, w₀]⟩
    · exact .inl (by simp [plainEnv, hn])
  have hreported : reloadedEnv.Reports secondCoreinit.loaded := by
    intro name
    by_cases hn : name = "coreinit.rpl"
    · subst hn
      exact .inr ⟨rfl, by simp [reloadedEnv, secondCoreinit]⟩
    · exact .inl (by simp [reloadedEnv, hn])
  have h₁ : ModuleStep w₀ w₁ := .load "coreinit.rpl" 0x500 rfl (by decide) (fun _ hn => by cases hn) (by simp [w₀])
  have h₂ : ModuleStep w₁ w₂ := .other registeredForCoreinit (by rfl)
  have h₃ : ModuleStep w₂ w₃ :=
    .notifyLoaded (plainEnv 0x10 true) 0x500 firstCoreinit hreports (eq_ok_afterPass (by decide +kernel))
  have h₄ : ModuleStep w₃ w₄ := .unload "coreinit.rpl" 0x500 (by simp [w₃, w₂, w₁, w₀])
  have h₅ : ModuleStep w₄ w₅ :=
    .notifyUnloaded (plainEnv 0x10 true) 0x500 withoutCoreinit (eq_ok_afterPass (by decide +kernel))
  have h₆ : ModuleStep w₅ w₆ := by
    refine .load "coreinit.rpl" 0x600 (congrFun hgone _) (by decide) ?_ (fun _ => List.not_mem_nil)
    intro name hn
    rw [hgone] at hn
    cases hn
  have h₇ : ModuleStep w₆ secondCoreinit := by
    have hrun : notifyCallback reloadedEnv withoutCoreinit 0x600 .loaded = .ok secondCoreinit.state :=
      eq_ok_afterPass (s := withoutCoreinit) (by decide +kernel)
    have hstep : ModuleStep w₆ { w₆ with state := secondCoreinit.state } :=
      .notifyLoaded reloadedEnv 0x600 secondCoreinit.state (hloaded ▸ hreported) hrun
    rw [hloaded] at hstep
    exact hstep
  have hcached : ⟨.coreinit, "coreinit.rpl", 0x600⟩ ∈ secondCoreinit.state.gFunctionAddressProvider.rplHandles := by
    decide +kernel
  have hcurrent := handles_current h₀ (.tail (.tail (.tail (.tail (.tail (.tail (.single h₁) h₂) h₃) h₄) h₅) h₆) h₇)
  refine ⟨hcached, hcurrent.1 _ hcached (by decide) List.not_mem_nil, ?_⟩
  refine hcurrent.2 reloadedEnv .coreinit "f" staleExports hreported (fun _ _ => List.not_mem_nil) ?_
  rintro h ⟨rplname, _, hh⟩
  by_cases hn : rplname = "coreinit.rpl"
  · subst hn
    simp only [secondCoreinit, Function.update_self, Option.some.injEq] at hh
    rw [← hh]
    rfl
  · simp only [secondCoreinit, Function.update_of_ne hn] at hh
    cases hh

end FunctionPatcher
