import FunctionPatcher.Runs

/-!
# Removing one patch among others

`FPRemoveFunctionPatch` undoes the later patches of the address and its own. It
means to apply the later ones again, but reads `isPatched` of the removed record
for it, which the restore has just cleared. A removal is therefore invisible to
the other patches exactly when none of them lies above the removed one.
-/

namespace FunctionPatcher

def restoredBy (s : State) (h : Word) : List Word :=
  let sc := removeScan s h {} s.gPatchedFunctions
  sc.toBeTempRestored.reverse ++ [sc.toBeRemoved]

def restoresSucceed (E : Env) : State → List Word → Bool
  | _, [] => true
  | s, p :: ps =>
    match restoreFunction E s p with
    | .ok (true, s) => restoresSucceed E s ps
    | _ => false

def patchedOthers (s : State) (h : Word) : List Word :=
  s.gPatchedFunctions.filter fun p => p ≠ h && (s.objects p).isPatched

def lastOther (s : State) (h : Word) : Option Word := (sameAddress s h (patchedOthers s h)).getLast?

/-- The removal of `h` from `s` to `s'` behaves as if `h` had never been installed. -/
def RemovalTransparent (s s' : State) (h : Word) : Prop :=
  (∀ p ∈ patchedOthers s h, (s'.objects p).isPatched = true) ∧
  s'.mem (s.objects h).realPhysicalFunctionAddress =
    match lastOther s h with
    | some p => (s'.objects p).replaceWithInstruction
    | none => (s.objects h).replacedInstruction

/-- No record behind `h` in the list is patched at `h`'s address. -/
def NothingAbove (s : State) (h : Word) : Prop :=
  ∀ pre post, s.gPatchedFunctions = pre ++ h :: post → ∀ q ∈ sameAddress s h post, (s.objects q).isPatched = false

/-- The word left at `h`'s address by the restore of `h`, which may write to another address
if the mapping has changed, is the one wanted there. -/
def RestoredWordFits (E : Env) (s : State) (h : Word) : Prop :=
  (if targetAddrPhys E (s.objects h) = (s.objects h).realPhysicalFunctionAddress
    then (s.objects h).replacedInstruction else (s.objects h).replaceWithInstruction) =
    match lastOther s h with
    | some p => (s.objects p).replaceWithInstruction
    | none => (s.objects h).replacedInstruction

theorem unpatched_eq {r : PatchedFunctionData} (h : r.isPatched = false) : { r with isPatched := false } = r := by
  cases r; cases h; rfl

theorem restoreFunction_unpatched {E : Env} {s : State} {p : Word} (h : (s.objects p).isPatched = false) :
    restoreFunction E s p = .ok (true, s) := by
  simp [restoreFunction, h]

theorem forEach_restoreFunction_unpatched {E : Env} {s : State} {ps : List Word}
    (h : ∀ p ∈ ps, (s.objects p).isPatched = false) : forEach (restoreFunction E) s ps = .ok s := by
  induction ps with
  | nil => rfl
  | cons p ps ih =>
    rw [forEach, restoreFunction_unpatched (h p (List.mem_cons_self ..))]
    exact ih fun q hq => h q (List.mem_cons_of_mem _ hq)

theorem restores_effect {E : Env} {ps : List Word} {s s' : State} (hs : restoresSucceed E s ps = true)
    (h : forEach (restoreFunction E) s ps = .ok s') : ∃ m, s' = { s with
      mem := m
      objects := fun q => if q ∈ ps then { s.objects q with isPatched := false } else s.objects q } := by
  induction ps generalizing s with
  | nil =>
    cases h
    exact ⟨s'.mem, by simp⟩
  | cons p ps ih =>
    obtain ⟨b, s₁, hf, h⟩ := forEach_cons h
    rw [restoresSucceed, hf] at hs
    cases b with
    | false => cases hs
    | true =>
      obtain ⟨m, rfl⟩ := ih hs h
      refine ⟨m, ?_⟩
      rcases restoreFunction_ok hf with ⟨hp, _, rfl⟩ | ⟨_, _, hb, _⟩ | ⟨_, _, rfl⟩
      · simp only [List.mem_cons]
        congr 1
        funext q
        by_cases hq : q = p
        · subst hq; simp [unpatched_eq hp]
        · simp [hq]
      · cases hb
      · simp only [restored, kernelCopyData, State.setObject, List.mem_cons]
        congr 1
        funext q
        by_cases hq : q = p
        · subst hq; simp
        · simp [hq]

theorem restoredBy_split {s : State} {h : Word} {pre post : List Word}
    (hl : s.gPatchedFunctions = pre ++ h :: post) (hn : s.gPatchedFunctions.Nodup)
    (hp : (s.objects h).isPatched = true) : restoredBy s h = (sameAddress s h post).reverse ++ [h] := by
  rw [hl] at hn
  unfold restoredBy
  rw [hl, removeScan_split s h (nodup_split hn).1 (nodup_split hn).2]
  simp [hp]

theorem mem_patchedOthers {s : State} {h q : Word} :
    q ∈ patchedOthers s h ↔ q ∈ s.gPatchedFunctions ∧ q ≠ h ∧ (s.objects q).isPatched = true := by
  simp [patchedOthers]

theorem mem_sameAddress {s : State} {h q : Word} {ps : List Word} : q ∈ sameAddress s h ps ↔
    q ∈ ps ∧ (s.objects q).realPhysicalFunctionAddress = (s.objects h).realPhysicalFunctionAddress := by
  simp [sameAddress]

section
variable {E : Env} {s s' : State} {h : Word} {st : FunctionPatcherStatus} {pre post : List Word}
  (hl : s.gPatchedFunctions = pre ++ h :: post) (hn : s.gPatchedFunctions.Nodup)
  (hp : (s.objects h).isPatched = true) (hrest : restoresSucceed E s (restoredBy s h) = true)
  (hrun : fpRemoveFunctionPatch E s h = .ok (st, s'))

include hl hn hp hrest hrun

/-- Nothing is applied again: the removed record is no longer marked when that is decided. -/
theorem remove_restored : st = .success ∧ ∃ m, forEach (restoreFunction E) s (restoredBy s h) = .ok { s with
      mem := m
      objects := fun q => if q ∈ restoredBy s h then { s.objects q with isPatched := false } else s.objects q } ∧
    s'.mem = m ∧ ∀ q, q ≠ h → s'.objects q =
      if q ∈ restoredBy s h then { s.objects q with isPatched := false } else s.objects q := by
  obtain ⟨hst, ⟨hp', _⟩ | ⟨_, s₁, h₁, hcase⟩⟩ := fpRemoveFunctionPatch_ok hl hn hrun
  · rw [hp] at hp'; cases hp'
  rw [← restoredBy_split hl hn hp] at h₁
  obtain ⟨m, rfl⟩ := restores_effect hrest h₁
  have hh : h ∈ restoredBy s h := by rw [restoredBy_split hl hn hp]; simp
  rcases hcase with ⟨_, rfl⟩ | ⟨hp₁, _⟩
  · refine ⟨hst, m, h₁, (destroy_frame _ h).mem_eq, fun q hq => ?_⟩
    rw [(destroy_frame _ h).objects_ne hq]
  · simp [hh] at hp₁

theorem remove_nothingAbove (ha : NothingAbove s h) :
    s'.mem = Function.update s.mem (targetAddrPhys E (s.objects h)) (s.objects h).replacedInstruction ∧
    s.mem (s.objects h).realPhysicalFunctionAddress = (s.objects h).replaceWithInstruction ∧
    ∀ q, q ≠ h → s'.objects q = s.objects q := by
  obtain ⟨_, m, h₁, hm, ho⟩ := remove_restored hl hn hp hrest hrun
  have hdead : ∀ q ∈ (sameAddress s h post).reverse, (s.objects q).isPatched = false :=
    fun q hq => ha pre post hl q (List.mem_reverse.mp hq)
  have hsplit := restoredBy_split hl hn hp
  rw [hsplit] at h₁
  obtain ⟨s₂, h₂, h₃⟩ := forEach_append h₁
  rw [forEach_restoreFunction_unpatched hdead] at h₂
  cases h₂
  obtain ⟨b, s₂, hf, h₃⟩ := forEach_cons h₃
  cases h₃
  have hsucc : restoresSucceed E s ((sameAddress s h post).reverse ++ [h]) = true := hsplit ▸ hrest
  rcases restoreFunction_ok hf with ⟨hp', _⟩ | ⟨_, hnot, rfl, hs⟩ | ⟨hr, _, hs⟩
  · rw [hp] at hp'; cases hp'
  · -- a restore that is refused contradicts the success of all
    have : ∀ ps : List Word, (∀ p ∈ ps, (s.objects p).isPatched = false) →
        restoresSucceed E s (ps ++ [h]) = false := by
      intro ps
      induction ps with
      | nil => intro _; simp [restoresSucceed, hf]
      | cons p ps ih =>
        intro hps
        rw [List.cons_append, restoresSucceed, restoreFunction_unpatched (hps p (List.mem_cons_self ..))]
        exact ih fun q hq => hps q (List.mem_cons_of_mem _ hq)
    rw [this _ hdead] at hsucc; cases hsucc
  · refine ⟨?_, hr.current, fun q hq => ?_⟩
    · rw [hm]; exact congrArg State.mem hs
    · rw [ho q hq, hsplit]
      split
      · rename_i hmem
        rcases List.mem_append.mp hmem with hmem | hmem
        · exact unpatched_eq (hdead q hmem)
        · exact absurd (List.mem_singleton.mp hmem) hq
      · rfl

end

/-- **Removal among other patches.** In every reachable state, a removal whose restores go
through is invisible to the other patches if and only if none of them is above the removed
one and the restored word is the right one. -/
theorem fpRemoveFunctionPatch_transparent_iff {E : Env} {s s' : State} {h : Word} {st : FunctionPatcherStatus}
    (hs : Reachable s) (hm : h ∈ s.gPatchedFunctions) (hp : (s.objects h).isPatched = true)
    (hrest : restoresSucceed E s (restoredBy s h) = true)
    (hrun : fpRemoveFunctionPatch E s h = .ok (st, s')) :
    st = .success ∧ (RemovalTransparent s s' h ↔ NothingAbove s h ∧ RestoredWordFits E s h) := by
  have hn := hs.nodup
  obtain ⟨pre, post, hl⟩ := List.append_of_mem hm
  obtain ⟨hst, m, _, hmem, ho⟩ := remove_restored hl hn hp hrest hrun
  refine ⟨hst, ?_⟩
  have hne : ∀ q ∈ patchedOthers s h, q ≠ h := fun q hq => (mem_patchedOthers.mp hq).2.1
  -- under `NothingAbove` both sides speak of the same word
  have hword : NothingAbove s h → ((s'.mem (s.objects h).realPhysicalFunctionAddress =
      match lastOther s h with
      | some p => (s'.objects p).replaceWithInstruction
      | none => (s.objects h).replacedInstruction) ↔ RestoredWordFits E s h) := by
    intro ha
    obtain ⟨hmem', hcur, ho'⟩ := remove_nothingAbove hl hn hp hrest hrun ha
    have hlast : ∀ p, lastOther s h = some p → s'.objects p = s.objects p := fun p hp =>
      ho' p (hne p (List.mem_of_mem_filter (List.mem_of_getLast? hp)))
    have hw : s'.mem (s.objects h).realPhysicalFunctionAddress =
        if targetAddrPhys E (s.objects h) = (s.objects h).realPhysicalFunctionAddress
          then (s.objects h).replacedInstruction else (s.objects h).replaceWithInstruction := by
      rw [hmem']
      split
      · rename_i ht; rw [ht, Function.update_self]
      · rename_i ht; rw [Function.update_of_ne (Ne.symm ht), hcur]
    unfold RestoredWordFits
    rw [hw]
    cases hlo : lastOther s h with
    | none => rfl
    | some p => simp only [hlast p hlo]
  constructor
  · rintro ⟨hkeep, hw⟩
    have ha : NothingAbove s h := by
      intro pre' post' hl' q hq
      cases hqp : (s.objects q).isPatched with
      | false => rfl
      | true =>
        -- a patched record above is restored and stays so
        have hqm := (mem_sameAddress.mp hq).1
        have hqh : q ≠ h := by
          rintro rfl
          rw [hl'] at hn
          exact (nodup_split hn).2 hqm
        have hqo : q ∈ patchedOthers s h :=
          mem_patchedOthers.mpr ⟨by rw [hl']; simp [hqm], hqh, hqp⟩
        have hqr : q ∈ restoredBy s h := by
          rw [restoredBy_split hl' hn hp]; simp [hq]
        have := hkeep q hqo
        rw [ho q hqh, if_pos hqr] at this
        cases this
    exact ⟨ha, (hword ha).mp hw⟩
  · rintro ⟨ha, hf⟩
    refine ⟨fun q hq => ?_, (hword ha).mpr hf⟩
    rw [(remove_nothingAbove hl hn hp hrest hrun ha).2.2 q (hne q hq)]
    exact (mem_patchedOthers.mp hq).2.2

def stackedPatches (handles : List Word) : State :=
  ran (plainState 0x7c0802a6) (handles.map fun p => (plainEnv p false, plainPatch .other 0x02000400 (p <<< 8) .all))

theorem fpRemoveFunctionPatch_transparent_iff_top :
    RemovalTransparent (stackedPatches [0x10, 0x20])
      (afterCall (stackedPatches [0x10, 0x20])
        (fpRemoveFunctionPatch (plainEnv 0 false) (stackedPatches [0x10, 0x20]) 0x20)) 0x20 ↔
    NothingAbove (stackedPatches [0x10, 0x20]) 0x20 ∧
      RestoredWordFits (plainEnv 0 false) (stackedPatches [0x10, 0x20]) 0x20 :=
  (fpRemoveFunctionPatch_transparent_iff (reachable_ran (plainState_initial _) (by decide +kernel))
    (by decide +kernel) (by decide +kernel) (by decide +kernel) (eq_ok_afterCall (by decide +kernel))).2

theorem fpRemoveFunctionPatch_not_transparent :
    ¬ ∀ (E : Env) (s s' : State) (h : Word) (st : FunctionPatcherStatus), Reachable s →
      h ∈ s.gPatchedFunctions → (s.objects h).isPatched = true → restoresSucceed E s (restoredBy s h) = true →
      fpRemoveFunctionPatch E s h = .ok (st, s') → RemovalTransparent s s' h := by
  intro H
  have := (H (plainEnv 0 false) (stackedPatches [0x10, 0x20]) _ 0x10 .success
    (reachable_ran (plainState_initial _) (by decide +kernel)) (by decide +kernel) (by decide +kernel)
    (by decide +kernel) (eq_ok_afterCall (s := stackedPatches [0x10, 0x20]) (by decide +kernel))).1 0x20
    (by decide +kernel)
  revert this
  decide +kernel

end FunctionPatcher
