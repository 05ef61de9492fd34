import FunctionPatcher.StackRuns

/-!
# Jumps into freed buffers

`FPRemoveFunctionPatch` frees the buffers of its record whether or not
`RestoreFunction` took the jump into them out of memory. While the records are
stacked in list order it always does, and no later record has saved the jump.
-/

namespace FunctionPatcher

open Overlay

/-- After the removal of `h` from `s` nothing leads to its jump any more, unless another record
jumps the same way: no word at an address of `s`'s records, and no saved instruction that is
still to be restored. -/
def NoDangling (s s' : State) (h : Word) : Prop :=
  (∃ q ∈ s'.gPatchedFunctions, (s'.objects q).replaceWithInstruction = (s.objects h).replaceWithInstruction) ∨
  ((∀ q ∈ s.gPatchedFunctions,
      s'.mem (s.objects q).realPhysicalFunctionAddress ≠ (s.objects h).replaceWithInstruction) ∧
    ∀ q ∈ s'.gPatchedFunctions, (s'.objects q).isPatched = true →
      (s'.objects q).replacedInstruction ≠ (s.objects h).replaceWithInstruction)

/-- Another record has the jump of `h`, or no function was like that before it was patched. -/
def JumpShared (s : State) (h : Word) : Prop :=
  ∃ q ∈ s.gPatchedFunctions, q ≠ h ∧ (s.objects q).replaceWithInstruction = (s.objects h).replaceWithInstruction

def JumpForeign (original : Word → Word) (s : State) (h : Word) : Prop :=
  ∀ q ∈ s.gPatchedFunctions,
    original (s.objects q).realPhysicalFunctionAddress ≠ (s.objects h).replaceWithInstruction

theorem Disciplined.word_or_saved {o : Word → Word} {s : State} {w : Word} (hd : Disciplined o s)
    (hw : ∀ q ∈ s.gPatchedFunctions, (s.objects q).replaceWithInstruction ≠ w) (a : Word) :
    (s.mem a = w → o a = w) ∧ ∀ r ∈ patchesAt s a, r.replacedInstruction = w → o a = w := by
  have hjump : ∀ r ∈ patchesAt s a, r.replaceWithInstruction ≠ w := fun r hr => by
    obtain ⟨q, hq, rfl⟩ := List.mem_map.mp (mem_layersAt.mp hr).1
    exact hw q hq
  refine ⟨fun hm => ?_, fun r hr hs => ?_⟩
  · rw [chain_top _ _ (hd.stacked a), top] at hm
    cases hlast : (layersAt PatchedFunctionData.realPhysicalFunctionAddress PatchedFunctionData.isPatched
        s.records a).getLast? with
    | none => simpa [hlast] using hm
    | some r => rw [hlast] at hm; exact absurd hm (hjump r (List.mem_of_getLast? hlast))
  · rcases chain_saved _ _ (hd.stacked a) r hr with hb | ⟨r', hr', hj⟩
    · exact hb.symm.trans hs
    · exact absurd (hj.symm.trans hs) (hjump r' hr')

theorem Disciplined.original_kept {o : Word → Word} {s : State} (hd : Disciplined o s) (a : Word) :
    s.mem a = o a ∨ ∃ q ∈ s.gPatchedFunctions, (s.objects q).isPatched = true ∧
      (s.objects q).replacedInstruction = o a := by
  have hs : Chain PatchedFunctionData.replacedInstruction PatchedFunctionData.replaceWithInstruction
      (o a) (patchesAt s a) (s.mem a) := hd.stacked a
  cases hl : patchesAt s a with
  | nil => rw [hl] at hs; exact .inl hs
  | cons r rs =>
    have hr : r ∈ patchesAt s a := by rw [hl]; exact List.mem_cons_self ..
    obtain ⟨hrm, hrp, _⟩ := mem_layersAt.mp hr
    obtain ⟨q, hq, rfl⟩ := List.mem_map.mp hrm
    rw [hl] at hs
    exact .inr ⟨q, hq, hrp, hs.1⟩

/-- **No dangling jump.** In every run whose events apply records in list order, a removal leaves
its jump nowhere, unless a function was such a jump to begin with. -/
theorem fpRemoveFunctionPatch_noDangling_iff {s₀ s' : State} {t : Traced} {E : Env} {h : Word}
    (h₀ : s₀.Initial) (hsteps : Relation.ReflTransGen OrderedStep ⟨s₀, s₀.mem⟩ t)
    (hc : RemovesInOrder E t.state h) (hrun : fpRemoveFunctionPatch E t.state h = .ok (.success, s')) :
    NoDangling t.state s' h ↔ JumpShared t.state h ∨ JumpForeign t.original t.state h := by
  have hd := disciplined_of_steps h₀ hsteps
  obtain ⟨s, o⟩ := t
  simp only at hd hc hrun ⊢
  have hm : h ∈ s.gPatchedFunctions := by
    by_contra hm
    rw [fpRemoveFunctionPatch_not_mem hm] at hrun
    cases hrun
  obtain ⟨pre, post, hl⟩ := List.append_of_mem hm
  obtain ⟨_, hd', hl', ho⟩ := hd.remove hl hc hrun
  have hn := hd.nodup
  rw [hl] at hn
  have hmem : ∀ q, q ∈ s'.gPatchedFunctions ↔ q ∈ s.gPatchedFunctions ∧ q ≠ h := fun q => by
    obtain ⟨hpre, hpost⟩ := nodup_split hn
    rw [hl', hl]
    simp only [List.mem_append, List.mem_cons]
    constructor
    · rintro (hq | hq)
      · exact ⟨.inl hq, fun e => hpre (e ▸ hq)⟩
      · exact ⟨.inr (.inr hq), fun e => hpost (e ▸ hq)⟩
    · rintro ⟨hq | hq | hq, hne⟩
      · exact .inl hq
      · exact absurd hq hne
      · exact .inr hq
  have hsame : ∀ q, q ≠ h → (s'.objects q).replaceWithInstruction = (s.objects q).replaceWithInstruction ∧
      (s'.objects q).realPhysicalFunctionAddress = (s.objects q).realPhysicalFunctionAddress := fun q hq => by
    rcases ho q hq with e | e <;> rw [e] <;> exact ⟨rfl, rfl⟩
  have hshared : JumpShared s h ↔ ∃ q ∈ s'.gPatchedFunctions,
      (s'.objects q).replaceWithInstruction = (s.objects h).replaceWithInstruction := by
    constructor
    · rintro ⟨q, hq, hne, e⟩; exact ⟨q, (hmem q).mpr ⟨hq, hne⟩, (hsame q hne).1.trans e⟩
    · rintro ⟨q, hq, e⟩
      obtain ⟨hq, hne⟩ := (hmem q).mp hq
      exact ⟨q, hq, hne, (hsame q hne).1.symm.trans e⟩
  unfold NoDangling
  rw [← hshared]
  by_cases hs : JumpShared s h
  · exact iff_of_true (.inl hs) (.inl hs)
  rw [or_iff_right hs, or_iff_right hs]
  have hw : ∀ q ∈ s'.gPatchedFunctions,
      (s'.objects q).replaceWithInstruction ≠ (s.objects h).replaceWithInstruction :=
    fun q hq e => hs (hshared.mpr ⟨q, hq, e⟩)
  constructor
  · rintro ⟨hwords, hsaved⟩ q hq e
    rcases hd'.original_kept (s.objects q).realPhysicalFunctionAddress with hk | ⟨r, hr, hrp, hk⟩
    · exact hwords q hq (hk.trans e)
    · exact hsaved r hr hrp (hk.trans e)
  · intro hf
    refine ⟨fun q hq e => hf q hq ((hd'.word_or_saved hw _).1 e), fun q hq hqp e => ?_⟩
    obtain ⟨hqs, hne⟩ := (hmem q).mp hq
    have hlayer : s'.objects q ∈ patchesAt s' (s.objects q).realPhysicalFunctionAddress :=
      mem_layersAt.mpr ⟨List.mem_map_of_mem hq, hqp, (hsame q hne).2⟩
    exact hf q hqs ((hd'.word_or_saved hw _).2 _ hlayer e)

/-- A patch with a trampoline, and another one on top of it. -/
def farBelow : State :=
  afterPass (plainState 0x7c0802a6)
    ((plainPatch .other 0x02000400 0x10002000 .all).run (plainEnv 0x10 false) (plainState 0x7c0802a6))

def farAbove : State :=
  afterPass farBelow ((plainPatch .other 0x02000400 0x10004000 .all).run (plainEnv 0x20 false) farBelow)

def farRemoved : State := afterCall farAbove (fpRemoveFunctionPatch (plainEnv 0 false) farAbove 0x20)

theorem fpRemoveFunctionPatch_noDangling_iff_trampolines :
    (farRemoved.objects 0x10).isPatched = true ∧ ¬ JumpShared farAbove 0x20 ∧ NoDangling farAbove farRemoved 0x20 := by
  have h₁ : OrderedStep ⟨plainState 0x7c0802a6, (plainState 0x7c0802a6).mem⟩ ⟨farBelow, (plainState 0x7c0802a6).mem⟩ :=
    .event (plainEnv 0x10 false) (plainPatch .other 0x02000400 0x10002000 .all) (by decide)
      (inOrder_add_of_target 0x02000400 0x02000400 (by decide) (by decide +kernel) (plainEnv_writes _ _) (by decide)
        (by decide)) (eq_ok_afterPass (s := plainState 0x7c0802a6) (by decide +kernel))
  have h₂ : OrderedStep ⟨farBelow, (plainState 0x7c0802a6).mem⟩ ⟨farAbove, (plainState 0x7c0802a6).mem⟩ :=
    .event (plainEnv 0x20 false) (plainPatch .other 0x02000400 0x10004000 .all) (by decide +kernel)
      (inOrder_add_of_target 0x02000400 0x02000400 (by decide +kernel) (by decide +kernel) (plainEnv_writes _ _)
        (by decide) (by decide)) (eq_ok_afterPass (s := farBelow) (by decide +kernel))
  have hrest : restoredBy farAbove 0x20 = [0x20] := by decide +kernel
  have ht : targetAddrPhys (plainEnv 0 false) (farAbove.objects 0x20) =
      (farAbove.objects 0x20).realPhysicalFunctionAddress := by decide +kernel
  have hc : RemovesInOrder (plainEnv 0 false) farAbove 0x20 := by
    refine fun _ _ => ⟨plainEnv_reads _ _, fun q hq _ => ?_⟩
    rw [hrest, List.mem_singleton] at hq
    rw [hq]
    exact ht
  have hlist : farAbove.gPatchedFunctions = [0x10, 0x20] := by decide +kernel
  have hbelow : (farAbove.objects 0x10).replaceWithInstruction = 0x48900002 := by decide +kernel
  have habove : (farAbove.objects 0x20).replaceWithInstruction = 0x48900082 := by decide +kernel
  refine ⟨by decide +kernel, ?_, ?_⟩
  · rintro ⟨q, hq, hne, e⟩
    rw [hlist, List.mem_pair] at hq
    rcases hq with rfl | rfl
    · rw [hbelow, habove] at e
      cases e
    · exact hne rfl
  · refine (fpRemoveFunctionPatch_noDangling_iff (plainState_initial _) (.tail (.single h₁) h₂) hc
      (eq_ok_afterCall (by decide +kernel))).mpr (.inr ?_)
    intro q _
    rw [habove]
    exact (by decide : (0x7c0802a6 : Word) ≠ 0x48900082)

def overtaken : State := ran (plainState 0x7c0802a6) lateLoad

def overtakenRemoved : State := afterCall overtaken (fpRemoveFunctionPatch (plainEnv 0 true) overtaken 0x20)

theorem overtaken_dangling :
    (execute (plainState 0x7c0802a6) lateLoad).isSome = true ∧
    fpRemoveFunctionPatch (plainEnv 0 true) overtaken 0x20 = .ok (.success, overtakenRemoved) ∧
    ¬ NoDangling overtaken overtakenRemoved 0x20 := by
  refine ⟨by decide +kernel, eq_ok_afterCall (by decide +kernel), fun H => ?_⟩
  have hl : overtakenRemoved.gPatchedFunctions = [0x10] := by decide +kernel
  have hp : (overtakenRemoved.objects 0x10).isPatched = true := by decide +kernel
  have hs : (overtakenRemoved.objects 0x10).replacedInstruction = (overtaken.objects 0x20).replaceWithInstruction := by
    decide +kernel
  rcases H with ⟨q, hq, e⟩ | ⟨_, H⟩
  · rw [hl, List.mem_singleton] at hq
    subst hq
    revert e
    decide +kernel
  · exact H 0x10 (by rw [hl]; exact List.mem_singleton_self _) hp hs

end FunctionPatcher
