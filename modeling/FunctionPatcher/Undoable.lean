import FunctionPatcher.StackRuns

/-!
# Calls are undoable

Runs of `FPAddFunctionPatch` and `FPRemoveFunctionPatch` alone. A new record is
the last one of the list when it is applied, so such runs keep the stacks in
list order, and once all records are gone memory is the original one.
-/

namespace FunctionPatcher

/-- If the new record applies and resolves, its jump reaches memory, and neither the original
word nor the effective address is 0. -/
def AddPatches (original : Word → Word) (E : Env) (s : State) (p : Word) : Prop :=
  ∀ effective physical, targetOf E s p = some (effective, physical) →
    E.Writes ∧ original physical ≠ 0 ∧ effective ≠ 0

/-- A call of one of the two functions, under a fixed mapping of addresses. -/
inductive CallStep (map original : Word → Word) : State → State → Prop
  | add {s s' : State} (E : Env) (fd : Option FunctionReplacementData) (res : AddResult) :
      E.osEffectiveToPhysical = map → E.newObject ∉ s.gPatchedFunctions →
      (∀ d, fd = some d → AddPatches original E (allocated E s d) E.newObject) →
      fpAddFunctionPatch E s fd = .ok (res, s') → CallStep map original s s'
  | remove {s s' : State} (E : Env) (h : Word) (st : FunctionPatcherStatus) :
      E.osEffectiveToPhysical = map → E.Reads →
      fpRemoveFunctionPatch E s h = .ok (st, s') → CallStep map original s s'

/-- The patched records that `RestoreFunction` translates anew are still where they were. -/
def Mapped (map : Word → Word) (s : State) : Prop :=
  ∀ p ∈ s.gPatchedFunctions, (s.objects p).isPatched = true → (s.objects p).library ≠ some .other →
    map (s.objects p).realEffectiveFunctionAddress = (s.objects p).realPhysicalFunctionAddress

section
variable {map o : Word → Word} {E : Env} {s s' : State}

theorem Mapped.targetAddrPhys (hm : Mapped E.osEffectiveToPhysical s) {p : Word} (hp : p ∈ s.gPatchedFunctions)
    (hpp : (s.objects p).isPatched = true) :
    targetAddrPhys E (s.objects p) = (s.objects p).realPhysicalFunctionAddress := by
  unfold FunctionPatcher.targetAddrPhys
  split
  · rename_i hlib; exact hm p hp hpp hlib
  · rfl

theorem Mapped.mono (hm : Mapped map s) (hl : ∀ p ∈ s'.gPatchedFunctions, p ∈ s.gPatchedFunctions)
    (ho : ∀ p ∈ s'.gPatchedFunctions,
      s'.objects p = s.objects p ∨ s'.objects p = { s.objects p with isPatched := false }) : Mapped map s' := by
  intro p hp hpp hlib
  rcases ho p hp with e | e
  · rw [e] at hpp hlib ⊢; exact hm p (hl p hp) hpp hlib
  · rw [e] at hpp; cases hpp

theorem fpAddFunctionPatch_listed {fd : Option FunctionReplacementData} {res : AddResult}
    (hnew : E.newObject ∉ s.gPatchedFunctions) (hrun : fpAddFunctionPatch E s fd = .ok (res, s')) :
    ∀ q ∈ s'.gPatchedFunctions, (q ∈ s.gPatchedFunctions ∧ s'.objects q = s.objects q) ∨
      (q = E.newObject ∧ ((s'.objects q).isPatched = false ∨ ∃ (d : FunctionReplacementData) (A : Application),
        A.Valid E (allocated E s d) q ∧ s'.objects q = A.record (allocated E s d) q)) := by
  intro q hq
  have hne : ∀ {q}, q ∈ s.gPatchedFunctions → q ≠ E.newObject := fun hq e => hnew (e ▸ hq)
  have hold : ∀ d, ∀ q ∈ s.gPatchedFunctions, (allocated E s d).objects q = s.objects q := fun d q hq =>
    (allocated_spec E s d).2.2.1 q (hne hq)
  rcases fpAddFunctionPatch_ok hrun with ⟨_, rfl | ⟨d, s₁, _, ha, rfl⟩⟩ | ⟨_, _, d, b, s₁, s₂, _, ha, hp, rfl⟩
  · exact .inl ⟨hq, rfl⟩
  · have e : s₁ = allocated E s d := eq_allocated ha
    subst e
    rw [(destroy_frame _ _).list, (allocated_spec E s d).1] at hq
    exact .inl ⟨hq, ((destroy_frame _ _).objects_ne (hne hq)).trans (hold d q hq)⟩
  · have e : s₁ = allocated E s d := eq_allocated ha
    subst e
    have hun := allocated_unpatched E s d
    have hl : (publishPatch s₂ E.newObject).gPatchedFunctions = s.gPatchedFunctions ++ [E.newObject] := by
      show s₂.gPatchedFunctions ++ _ = _
      rw [patchFunction_list hp, (allocated_spec E s d).1]
    rw [hl, List.mem_append, List.mem_singleton] at hq
    show (_ ∧ s₂.objects q = _) ∨ (_ ∧ ((s₂.objects q).isPatched = _ ∨ ∃ d A, _ ∧ s₂.objects q = _))
    rcases hq with hq | rfl
    · refine .inl ⟨hq, ?_⟩
      rcases patchFunction_ok hp with ⟨_, _, rfl⟩ | ⟨_, _, P, calls, rfl⟩ | ⟨_, A, _, rfl⟩
      · exact hold d q hq
      · exact hold d q hq
      · exact (Function.update_of_ne (hne hq) ..).trans (hold d q hq)
    · refine .inr ⟨rfl, ?_⟩
      rcases patchFunction_ok hp with ⟨_, _, rfl⟩ | ⟨_, _, P, calls, rfl⟩ | ⟨_, A, hA, rfl⟩
      · exact .inl hun
      · exact .inl hun
      · exact .inr ⟨d, A, hA, A.result_objects_self E _ _⟩

theorem Mapped.add {fd : Option FunctionReplacementData} {res : AddResult} (hm : Mapped E.osEffectiveToPhysical s)
    (hnew : E.newObject ∉ s.gPatchedFunctions) (hrun : fpAddFunctionPatch E s fd = .ok (res, s')) :
    Mapped E.osEffectiveToPhysical s' := by
  intro q hq hqp hlib
  rcases fpAddFunctionPatch_listed hnew hrun q hq with ⟨hq, e⟩ | ⟨rfl, hun | ⟨d, A, hA, e⟩⟩
  · rw [e] at hqp hlib ⊢; exact hm q hq hqp hlib
  · rw [hun] at hqp; cases hqp
  · rw [e] at hlib ⊢
    rcases hA.resolves with ⟨_, hother, _⟩ | ⟨_, hphys, _⟩
    · exact absurd hother hlib
    · exact hphys.symm

theorem mem_restoredBy {h q : Word} (hn : s.gPatchedFunctions.Nodup) (hm : h ∈ s.gPatchedFunctions)
    (hp : (s.objects h).isPatched = true) (hq : q ∈ restoredBy s h) : q ∈ s.gPatchedFunctions := by
  obtain ⟨pre, post, hl⟩ := List.append_of_mem hm
  rw [restoredBy_split hl hn hp] at hq
  rcases List.mem_append.mp hq with hq | hq
  · rw [hl]; simp [(mem_sameAddress.mp (List.mem_reverse.mp hq)).1]
  · exact List.mem_singleton.mp hq ▸ hm

/-- **Step lemma.** Each call keeps the records stacked and mapped. -/
theorem CallStep.preserves (hstep : CallStep map o s s') (hd : Disciplined o s) (hm : Mapped map s) :
    Disciplined o s' ∧ Mapped map s' := by
  cases hstep with
  | add E fd res hmap hnew hc hrun =>
    subst hmap
    refine ⟨hd.add hnew (fun d hfd effective physical _ ht => ?_) hrun, hm.add hnew hrun⟩
    obtain ⟨hw, h0, he⟩ := hc d hfd effective physical ht
    -- the new record is not in the list yet
    refine ⟨hw, h0, he, fun pre post hl => absurd ?_ hnew⟩
    rw [← (allocated_spec E s d).1, hl]; simp
  | remove E h st hmap hr hrun =>
    subst hmap
    by_cases hmem : h ∈ s.gPatchedFunctions
    · obtain ⟨pre, post, hl⟩ := List.append_of_mem hmem
      have hc : RemovesInOrder E s h := fun _ hp =>
        ⟨hr, fun q hq => hm.targetAddrPhys (mem_restoredBy hd.nodup hmem hp hq)⟩
      have hn := hd.nodup
      rw [hl] at hn
      obtain ⟨hpre, hpost⟩ := nodup_split hn
      obtain ⟨_, hd', hl', ho⟩ := hd.remove hl hc hrun
      refine ⟨hd', hm.mono (fun q hq => ?_) fun q hq => ho q ?_⟩
      · rw [hl', List.mem_append] at hq
        rw [hl]; simp only [List.mem_append, List.mem_cons]; tauto
      · rintro rfl
        rw [hl'] at hq
        exact (List.mem_append.mp hq).elim hpre hpost
    · rw [fpRemoveFunctionPatch_not_mem hmem] at hrun
      cases hrun; exact ⟨hd, hm⟩

end

/-- **Undoable.** In every state of every run of calls, if every record that was added has been
removed then memory is what it was, whatever the order of the removals. -/
theorem mem_eq_of_all_removed {map : Word → Word} {s₀ s : State} (h₀ : s₀.Initial)
    (hrun : Relation.ReflTransGen (CallStep map s₀.mem) s₀ s) (hall : s.gPatchedFunctions = []) :
    s.mem = s₀.mem := by
  have hinv : Disciplined s₀.mem s ∧ Mapped map s := by
    clear hall
    induction hrun with
    | refl => exact ⟨disciplined_empty h₀.empty, fun p hp => by rw [h₀.empty] at hp; cases hp⟩
    | tail _ step ih => exact step.preserves ih.1 ih.2
  have hs := hinv.1.stacked
  unfold State.records at hs
  rw [hall] at hs
  exact hs.eq_base (by simp)

def added (n : Nat) : State :=
  ran (plainState 0x7c0802a6)
    ([(plainEnv 0x10 true, plainPatch .coreinit 0 0x1000 .all),
      (plainEnv 0x20 true, plainPatch .other 0x02000400 0x10002000 .gameAndMenu)].take n)

def removed (s : State) (h : Word) : State := afterCall s (fpRemoveFunctionPatch (plainEnv 0 true) s h)

theorem mem_eq_of_all_removed_two :
    (removed (removed (added 2) 0x10) 0x20).mem = (plainState 0x7c0802a6).mem := by
  have hadd : ∀ (E : Env) (s : State) (d : FunctionReplacementData),
      targetOf E (allocated E s d) E.newObject = some (0x02000400, 0x02000400) → E.Writes →
      ∀ d', some d = some d' → AddPatches (plainState 0x7c0802a6).mem E (allocated E s d') E.newObject := by
    rintro E s d ht hw _ ⟨⟩ effective physical ht'
    rw [ht] at ht'
    cases ht'
    exact ⟨hw, by decide, by decide⟩
  have h₁ : CallStep id (plainState 0x7c0802a6).mem (plainState 0x7c0802a6) (added 1) :=
    .add (plainEnv 0x10 true) _ _ rfl (by decide)
      (hadd _ _ (plainData .coreinit 0 0x1000 .all) (by decide +kernel) (plainEnv_writes _ _)) rfl
  have h₂ : CallStep id (plainState 0x7c0802a6).mem (added 1) (added 2) :=
    .add (plainEnv 0x20 true) _ _ rfl (by decide +kernel)
      (hadd _ _ (plainData .other 0x02000400 0x10002000 .gameAndMenu) (by decide +kernel) (plainEnv_writes _ _)) rfl
  have h₃ : CallStep id (plainState 0x7c0802a6).mem (added 2) (removed (added 2) 0x10) :=
    .remove (plainEnv 0 true) 0x10 .success rfl (plainEnv_reads _ _) (eq_ok_afterCall (by decide +kernel))
  have h₄ : CallStep id (plainState 0x7c0802a6).mem (removed (added 2) 0x10) (removed (removed (added 2) 0x10) 0x20) :=
    .remove (plainEnv 0 true) 0x20 .success rfl (plainEnv_reads _ _) (eq_ok_afterCall (by decide +kernel))
  exact mem_eq_of_all_removed (plainState_initial _) (.tail (.tail (.tail (.single h₁) h₂) h₃) h₄) (by decide +kernel)

end FunctionPatcher
