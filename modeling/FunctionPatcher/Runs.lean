import FunctionPatcher.Main
import FunctionPatcher.ExportSpec
import Mathlib.Logic.Relation

/-!
# Runs of the module

One step is an event in any environment, or a change of memory by somebody
else. `operator new` never returns the address of a record that is in use, so
the handles in `gPatchedFunctions` stay distinct.
-/

namespace FunctionPatcher

inductive Step : State → State → Prop
  | event {s s' : State} (E : Env) (ev : Event) :
      E.newObject ∉ s.gPatchedFunctions → ev.run E s = .ok s' → Step s s'
  | memory (s : State) (mem : Word → Word) : Step s { s with mem := mem }

def Reachable (s : State) : Prop := ∃ s₀, State.Initial s₀ ∧ Relation.ReflTransGen Step s₀ s

/-! ## Clearing flags -/

/-- `s'` is `s` with the flag of some records cleared. -/
def Cleared (s s' : State) : Prop :=
  ∃ o, s' = { s with objects := o } ∧ ∀ q, o q = s.objects q ∨ o q = { s.objects q with isPatched := false }

theorem Cleared.refl (s : State) : Cleared s s := ⟨s.objects, rfl, fun _ => .inl rfl⟩

theorem Cleared.trans {s s₁ s₂ : State} (h₁ : Cleared s s₁) (h₂ : Cleared s₁ s₂) : Cleared s s₂ := by
  obtain ⟨o₁, rfl, h₁⟩ := h₁
  obtain ⟨o₂, rfl, h₂⟩ := h₂
  refine ⟨o₂, rfl, fun q => ?_⟩
  rcases h₂ q with h | h <;> rcases h₁ q with h' | h' <;> simp only at h <;> rw [h, h'] <;> simp

theorem clearPatched_cleared (s : State) (p : Word) : Cleared s (clearPatched s p) := by
  refine ⟨_, rfl, fun q => ?_⟩
  by_cases hq : q = p
  · subst hq; exact .inr (Function.update_self ..)
  · exact .inl (Function.update_of_ne hq ..)

theorem checkLoop_cleared (E : Env) (ps : List Word) (s : State) (cs : CheckSets) :
    Cleared s (checkLoop E s cs ps) := by
  induction ps generalizing s cs with
  | nil => exact .refl s
  | cons p ps ih =>
    simp only [checkLoop]
    split
    · exact ih s cs
    split
    · exact (clearPatched_cleared s p).trans (ih _ cs)
    split
    · exact ih s cs
    split
    · exact ih s _
    · exact (clearPatched_cleared s p).trans (ih _ _)

theorem clearLibrary_cleared (library : FunctionReplacementLibraryType) (ps : List Word) (s : State) :
    Cleared s (clearLibrary library s ps) := by
  induction ps generalizing s with
  | nil => exact .refl s
  | cons p ps ih =>
    simp only [clearLibrary]
    split
    · exact (clearPatched_cleared s p).trans (ih _)
    · exact ih s

theorem Cleared.list {s s' : State} (h : Cleared s s') : s'.gPatchedFunctions = s.gPatchedFunctions := by
  obtain ⟨o, rfl, _⟩ := h; rfl

theorem Cleared.provider {s s' : State} (h : Cleared s s') :
    s'.gFunctionAddressProvider = s.gFunctionAddressProvider := by
  obtain ⟨o, rfl, _⟩ := h; rfl

/-! ## The list -/

theorem BuffersDiffer.mem_eq {s s' : State} {p : Word} (h : BuffersDiffer s s' p) : s'.mem = s.mem := by
  obtain ⟨H, jd, jo, n, _, rfl⟩ := h; rfl

theorem BuffersDiffer.objects_ne {s s' : State} {p q : Word} (h : BuffersDiffer s s' p) (hq : q ≠ p) :
    s'.objects q = s.objects q := by
  obtain ⟨H, jd, jo, n, _, rfl⟩ := h; exact setObject_objects_ne _ _ _ hq

theorem BuffersDiffer.words {s s' : State} {p : Word} (h : BuffersDiffer s s' p) :
    s'.jumpHeap.words = s.jumpHeap.words := by
  obtain ⟨H, jd, jo, n, hw, rfl⟩ := h; exact hw

theorem BuffersDiffer.list {s s' : State} {p : Word} (h : BuffersDiffer s s' p) :
    s'.gPatchedFunctions = s.gPatchedFunctions := by
  obtain ⟨H, jd, jo, n, _, rfl⟩ := h; rfl

theorem BuffersDiffer.provider {s s' : State} {p : Word} (h : BuffersDiffer s s' p) :
    s'.gFunctionAddressProvider = s.gFunctionAddressProvider := by
  obtain ⟨H, jd, jo, n, _, rfl⟩ := h; rfl

/-- The state in which `FPAddFunctionPatch` calls `PatchFunction` on the new record. -/
def allocated (E : Env) (s : State) (d : FunctionReplacementData) : State :=
  (allocateDataForJumps E (constructed E s d) E.newObject).2

theorem eq_allocated {E : Env} {s s₁ : State} {d : FunctionReplacementData} {b : Bool}
    (h : allocateDataForJumps E (constructed E s d) E.newObject = (b, s₁)) : s₁ = allocated E s d := by
  unfold allocated
  rw [h]

theorem allocated_spec (E : Env) (s : State) (d : FunctionReplacementData) :
    (allocated E s d).gPatchedFunctions = s.gPatchedFunctions ∧ (allocated E s d).mem = s.mem ∧
    (∀ q, q ≠ E.newObject → (allocated E s d).objects q = s.objects q) ∧
    ∃ jd jo n, (allocated E s d).objects E.newObject =
      { recordOf d with jumpData := jd, jumpToOriginal := jo, jumpDataSize := n } := by
  obtain ⟨H, jd, jo, n, _, he⟩ : BuffersDiffer (constructed E s d) (allocated E s d) E.newObject :=
    allocateDataForJumps_frame rfl
  rw [he]
  refine ⟨rfl, rfl, fun q hq => ?_, jd, jo, n, ?_⟩
  · rw [setObject_objects_ne _ _ _ hq]; exact setObject_objects_ne _ _ _ hq
  · rw [setObject_objects_self]; simp only [constructed, setObject_objects_self]

theorem allocated_unpatched (E : Env) (s : State) (d : FunctionReplacementData) :
    ((allocated E s d).objects E.newObject).isPatched = false := by
  obtain ⟨_, _, _, jd, jo, n, he⟩ := allocated_spec E s d
  rw [he]; exact (recordOf_fresh d).1

theorem fpAddFunctionPatch_list {E : Env} {s s' : State} {fd : Option FunctionReplacementData} {res : AddResult}
    (h : fpAddFunctionPatch E s fd = .ok (res, s')) :
    (res.status ≠ .success ∧ s'.gPatchedFunctions = s.gPatchedFunctions) ∨
    (res.status = .success ∧ s'.gPatchedFunctions = s.gPatchedFunctions ++ [E.newObject]) := by
  rcases fpAddFunctionPatch_ok h with ⟨hres, rfl | ⟨d, s₁, _, ha, rfl⟩⟩ | ⟨hres, _, d, b, s₁, s₂, _, ha, hp, rfl⟩
  · exact .inl ⟨hres, rfl⟩
  · exact .inl ⟨hres, (destroy_frame s₁ _).list.trans (allocateDataForJumps_frame ha).list⟩
  · refine .inr ⟨hres, ?_⟩
    show s₂.gPatchedFunctions ++ [E.newObject] = _
    rw [patchFunction_list hp, (allocateDataForJumps_frame ha).list]; rfl

theorem fpRemoveFunctionPatch_nodup {E : Env} {s s' : State} {h : Word} {st : FunctionPatcherStatus}
    (hn : s.gPatchedFunctions.Nodup) (hrun : fpRemoveFunctionPatch E s h = .ok (st, s')) :
    s'.gPatchedFunctions.Nodup := by
  by_cases hm : h ∈ s.gPatchedFunctions
  · obtain ⟨pre, post, hl⟩ := List.append_of_mem hm
    have hsub : (pre ++ post).Nodup := by
      rw [hl] at hn
      exact hn.sublist (List.Sublist.append_left (List.sublist_cons_self h post) pre)
    obtain ⟨_, ⟨_, rfl⟩ | ⟨_, s₁, _, ⟨_, rfl⟩ | ⟨_, s₂, h₂, rfl⟩⟩⟩ := fpRemoveFunctionPatch_ok hl hn hrun
    · rw [(destroy_frame _ h).list]; exact hsub
    · rw [(destroy_frame _ h).list]; exact hsub
    · rw [(destroy_frame _ h).list, forEach_patchFunction_list h₂]; exact hsub
  · rw [fpRemoveFunctionPatch_not_mem hm] at hrun; cases hrun; exact hn

theorem notifyCallback_list {E : Env} {s s' : State} {module : Word} {reason : NotifyReason}
    (h : notifyCallback E s module reason = .ok s') : s'.gPatchedFunctions = s.gPatchedFunctions := by
  cases reason with
  | loaded => exact forEach_patchFunction_list h
  | unloaded =>
    simp only [notifyCallback] at h
    cases h
    refine (checkLoop_cleared E _ _ _).list.trans ?_
    split
    · exact (clearLibrary_cleared _ _ s).list
    · rfl

theorem applicationStarts_list {E : Env} {s s' : State} (h : applicationStarts E s = .ok s') :
    s'.gPatchedFunctions = s.gPatchedFunctions := by
  unfold applicationStarts at h
  split at h
  · cases h; rfl
  · exact (forEach_patchFunction_list h).trans (checkLoop_cleared E _ _ _).list

theorem Event.run_ok_add {E : Env} {s s' : State} {fd : Option FunctionReplacementData}
    (h : (Event.add fd).run E s = .ok s') : ∃ res, fpAddFunctionPatch E s fd = .ok (res, s') := by
  unfold Event.run at h
  cases hr : fpAddFunctionPatch E s fd with
  | error e => simp [hr, Except.map] at h
  | ok r => simp only [hr, Except.map, Except.ok.injEq] at h; subst h; exact ⟨r.1, rfl⟩

theorem Event.run_ok_remove {E : Env} {s s' : State} {h : Word} (hrun : (Event.remove h).run E s = .ok s') :
    ∃ st, fpRemoveFunctionPatch E s h = .ok (st, s') := by
  unfold Event.run at hrun
  cases hr : fpRemoveFunctionPatch E s h with
  | error e => simp [hr, Except.map] at hrun
  | ok r => simp only [hr, Except.map, Except.ok.injEq] at hrun; subst hrun; exact ⟨r.1, rfl⟩

theorem map_eq_error {α β : Type} {f : α → β} {x : Except String α} {e : String} :
    x.map f = .error e ↔ x = .error e := by
  cases x <;> simp [Except.map]

theorem Event.run_nodup {E : Env} {s s' : State} {ev : Event} (hnew : E.newObject ∉ s.gPatchedFunctions)
    (hn : s.gPatchedFunctions.Nodup) (h : ev.run E s = .ok s') : s'.gPatchedFunctions.Nodup := by
  cases ev with
  | add fd =>
    obtain ⟨res, hr⟩ := Event.run_ok_add h
    rcases fpAddFunctionPatch_list hr with ⟨_, hl⟩ | ⟨_, hl⟩
    · rw [hl]; exact hn
    · rw [hl, List.nodup_append]
      exact ⟨hn, List.nodup_singleton _, fun a ha b hb hab => by
        rw [List.mem_singleton] at hb; subst hb; subst hab; exact hnew ha⟩
  | remove handle =>
    obtain ⟨st, hr⟩ := Event.run_ok_remove h
    exact fpRemoveFunctionPatch_nodup hn hr
  | notify module reason => rw [notifyCallback_list h]; exact hn
  | applicationStarts => rw [applicationStarts_list h]; exact hn
  | applicationEnds => cases h; exact hn

theorem Reachable.nodup {s : State} (h : Reachable s) : s.gPatchedFunctions.Nodup := by
  obtain ⟨s₀, h₀, hs⟩ := h
  induction hs with
  | refl => rw [h₀.empty]; exact List.nodup_nil
  | tail _ step ih =>
    cases step with
    | event E ev hnew hrun => exact Event.run_nodup hnew ih hrun
    | memory mem => exact ih

/-! ## The calls of an event -/

/-- The event calls `PatchFunction` for `p` in the state `t`. -/
inductive Event.Patches (E : Env) (s : State) : Event → State → Word → Prop
  | added {d : FunctionReplacementData} {t : State} : ¬ (d.version < 2 ∨ 3 < d.version) → E.newObject ≠ 0 →
      allocateDataForJumps E (constructed E s d) E.newObject = (true, t) → Patches E s (.add (some d)) t E.newObject
  | loaded {module : Word} {t : State} {p : Word} : Arrives (patchFunction E) s s.gPatchedFunctions t p →
      Patches E s (.notify module .loaded) t p
  | started {t : State} {p : Word} : ¬ (E.upid ≠ 2 ∧ E.upid ≠ 15) →
      Arrives (patchFunction E) (checkIfPatchedFunctionsAreStillInMemory E s) s.gPatchedFunctions t p →
      Patches E s .applicationStarts t p
  | reapplied {h p : Word} {pre post : List Word} {s₁ t : State} : s.gPatchedFunctions = pre ++ h :: post →
      (s.objects h).isPatched = true →
      forEach (restoreFunction E) s ((sameAddress s h post).reverse ++ [h]) = .ok s₁ →
      (s₁.objects h).isPatched = true →
      Arrives (patchFunction E) { s₁ with gPatchedFunctions := pre ++ post } (sameAddress s h post) t p →
      Patches E s (.remove h) t p

/-- The event calls `RestoreFunction` for `p` in the state `t`. -/
inductive Event.Restores (E : Env) (s : State) : Event → State → Word → Prop
  | removed {h p : Word} {pre post : List Word} {t : State} : s.gPatchedFunctions = pre ++ h :: post →
      (s.objects h).isPatched = true →
      Arrives (restoreFunction E) s ((sameAddress s h post).reverse ++ [h]) t p → Restores E s (.remove h) t p

/-! ## Concrete runs -/

def execute : State → List (Env × Event) → Option State
  | s, [] => some s
  | s, (E, ev) :: rest =>
    if E.newObject ∈ s.gPatchedFunctions then none
    else
      match ev.run E s with
      | .error _ => none
      | .ok s => execute s rest

theorem execute_steps {evs : List (Env × Event)} {s s' : State} (h : execute s evs = some s') :
    Relation.ReflTransGen Step s s' := by
  induction evs generalizing s with
  | nil =>
    cases h
    exact .refl
  | cons x rest ih =>
    obtain ⟨E, ev⟩ := x
    rw [execute] at h
    split at h
    · cases h
    rename_i hnew
    split at h
    · cases h
    rename_i s₁ hrun
    exact .head (.event E ev hnew hrun) (ih h)

def ran (s : State) (evs : List (Env × Event)) : State := (execute s evs).getD s

theorem reachable_ran {s : State} {evs : List (Env × Event)} (h₀ : s.Initial)
    (h : (execute s evs).isSome = true) : Reachable (ran s evs) := by
  obtain ⟨s', hs⟩ := Option.isSome_iff_exists.mp h
  refine ⟨s, h₀, execute_steps (?_ : execute s evs = _)⟩
  rw [hs, ran, hs]; rfl

def afterCall (s : State) : Except String (FunctionPatcherStatus × State) → State
  | .ok (.success, s') => s'
  | _ => s

def succeeds : Except String (FunctionPatcherStatus × State) → Bool
  | .ok (.success, _) => true
  | _ => false

theorem eq_ok_afterCall {s : State} {x : Except String (FunctionPatcherStatus × State)} (h : succeeds x = true) :
    x = .ok (.success, afterCall s x) := by
  cases x with
  | error e => cases h
  | ok r =>
    obtain ⟨st, s'⟩ := r
    cases st with
    | success => rfl
    | _ => cases h

def applies : Except String (Bool × State) → Bool
  | .ok (true, _) => true
  | _ => false

def afterPatch (s : State) : Except String (Bool × State) → State
  | .ok (true, s') => s'
  | _ => s

theorem eq_ok_afterPatch {s : State} {x : Except String (Bool × State)} (h : applies x = true) :
    x = .ok (true, afterPatch s x) := by
  cases x with
  | error e => cases h
  | ok r =>
    obtain ⟨b, s'⟩ := r
    cases b with
    | false => cases h
    | true => rfl

def afterPass (s : State) : Except String State → State
  | .ok s' => s'
  | .error _ => s

theorem eq_ok_afterPass {s : State} {x : Except String State} (h : x.isOk = true) : x = .ok (afterPass s x) := by
  cases x with
  | error e => cases h
  | ok s' => rfl

/-- An environment in which addresses are their own translation, every allocation succeeds
and `newObject` is the next record. The only library that may be loaded is coreinit, which
exports everything at one address. -/
def plainEnv (newObject : Word) (loaded : Bool) : Env where
  osEffectiveToPhysical := id
  mmu := id
  stackAddress := 0x1000
  pThread := fun _ => true
  pThreadStack := fun _ => true
  threadAddress := fun _ => 0x1000
  osGetUPID := 0x02000800
  upid := 2
  osGetTitleID := 0
  mcpOpen := 1
  mcpGetTitleInfo := fun _ _ => some 0
  osDynLoadRPLs := []
  osDynLoadGetRPLInfo := true
  osDynLoadIsModuleLoaded := fun name =>
    if loaded ∧ name = "coreinit.rpl" then (OS_DYNLOAD_OK, some 0x500) else (1, none)
  osDynLoadFindExport := fun _ _ => 0x02000400
  kernel := ⟨(0, 0), [], fun _ => ⟨0, 0, 0, 0⟩, fun _ => ""⟩
  newObject := newObject
  memAllocFromExpHeapEx := fun blocks _ =>
    let a := blocks.foldl (fun a b => if a ≤ b.1 then b.1 + 64 else a) 0x00900000
    if a ∈ blocks.map Prod.fst then 0 else a
  fpTargetProcessWiiUMenu := 2
  fpTargetProcessGame := 15

theorem plainEnv_reads (p : Word) (loaded : Bool) : (plainEnv p loaded).Reads :=
  (by decide : (0x1000 : Word) ≠ 0)

theorem plainEnv_writes (p : Word) (loaded : Bool) : (plainEnv p loaded).Writes :=
  ⟨⟨.core0, rfl, rfl⟩, fun _ _ _ => (by decide : (0x1000 : Word) ≠ 0)⟩

def plainState (original : Word) : State where
  mem := fun _ => original
  replaceCalls := fun _ => 0
  jumpHeap := ⟨[], fun _ => 0, []⟩
  gFunctionAddressProvider := .initial
  mcpCalls := []
  objects := fun _ => {}
  gPatchedFunctions := []

theorem plainState_initial (original : Word) : (plainState original).Initial := ⟨rfl, rfl, rfl, rfl, rfl⟩

def plainData (library : FunctionReplacementLibraryType) (address replaceAddr : Word)
    (targetProcess : FunctionPatcherTargetProcess) : FunctionReplacementData where
  version := 2
  v2 := ⟨address, address, replaceAddr, 0x3000, library, "f", targetProcess⟩
  v3 := ⟨.replaceByLibOrAddress, address, address, replaceAddr, 0x3000, targetProcess,
    ⟨library, "f"⟩, ⟨[], 0, 0, "", 0, ""⟩⟩

def plainPatch (library : FunctionReplacementLibraryType) (address replaceAddr : Word)
    (targetProcess : FunctionPatcherTargetProcess) : Event :=
  .add (some (plainData library address replaceAddr targetProcess))

end FunctionPatcher
