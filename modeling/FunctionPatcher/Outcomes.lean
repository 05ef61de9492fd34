import FunctionPatcher.Runs

/-!
# What the results of `PatchFunction` and `RestoreFunction` say

The word is written by the threads of `runOnAllCores`, whose creation can fail,
and `isPatched` is set whatever they did. `RestoreFunction` compares the word at
the stored physical address and writes to the address the effective one
translates to now.
-/

namespace FunctionPatcher

section
variable {E : Env} {s s' : State} {p : Word} {b : Bool}

/-! ## `PatchFunction` -/

/-- `true` says that the record is patched, `false` that nothing happened. -/
structure PatchTold (s s' : State) (p : Word) (b : Bool) : Prop where
  patched : b = true → (s'.objects p).isPatched = true ∧
    s'.mem (s'.objects p).realPhysicalFunctionAddress = (s'.objects p).replaceWithInstruction
  nothing : b = false → s'.mem = s.mem ∧ s'.replaceCalls = s.replaceCalls ∧ s'.jumpHeap = s.jumpHeap ∧
    s'.objects = s.objects

/-- If the record applies and resolves, the last thread that can change the word copies the jump, or
the word it copies is the jump anyway. -/
def JumpArrives (E : Env) (s : State) (p : Word) : Prop :=
  ∀ effective physical, targetOf E s p = some (effective, physical) →
    match [Core.core0, .core1, .core2].find? (decides E physical) with
    | some c => localToPhysical E (E.threadAddress c) ≠ 0 ∨ s.mem 0 = jumpInstruction (s.objects p)
    | none => s.mem physical = jumpInstruction (s.objects p)

theorem threadsWord_eq_iff (E : Env) (mem : Word → Word) (physical jump : Word) :
    threadsWord E mem physical jump = jump ↔
      match [Core.core0, .core1, .core2].find? (decides E physical) with
      | some c => localToPhysical E (E.threadAddress c) ≠ 0 ∨ mem 0 = jump
      | none => mem physical = jump := by
  unfold threadsWord
  cases [Core.core0, .core1, .core2].find? (decides E physical) with
  | none => rfl
  | some c =>
    show threadWord E mem jump c = jump ↔ _
    unfold threadWord
    by_cases hm : localToPhysical E (E.threadAddress c) = 0
    · rw [if_pos hm]
      exact (or_iff_right (not_not.mpr hm)).symm
    · rw [if_neg hm]
      exact iff_of_true rfl (.inl hm)

/-- **What `PatchFunction` tells.** Its result is true to what it did if and only if the jump arrives. -/
theorem patchFunction_told_iff (hun : (s.objects p).isPatched = false) (hrun : patchFunction E s p = .ok (b, s')) :
    PatchTold s s' p b ↔ JumpArrives E s p := by
  rcases patchFunction_outcomes hrun with ⟨hp, _⟩ | ⟨_, ht, rfl, P, calls, rfl⟩ | ⟨rfl, A, hA, hw, rfl⟩
  · rw [hun] at hp
    cases hp
  · apply iff_of_true
    · constructor
      · intro h
        cases h
      · intro _
        exact ⟨rfl, rfl, rfl, rfl⟩
    · intro effective physical he
      rw [ht] at he
      cases he
  · have hself : (A.result E s p).objects p = A.record s p := A.result_objects_self E s p
    have hmem : (A.result E s p).mem A.physical = A.written := Function.update_self ..
    have hword : A.written = jumpInstruction (s.objects p) ↔ JumpArrives E s p := by
      unfold JumpArrives
      rw [forall_targetOf hA.target, hw, threadsWord_eq_iff]
    rw [← hword]
    constructor
    · intro h
      have := (h.patched rfl).2
      rw [hself] at this
      exact hmem.symm.trans this
    · intro h
      constructor
      · intro _
        rw [hself]
        exact ⟨rfl, hmem.trans h⟩
      · intro hb
        cases hb

/-! ## `RestoreFunction` -/

/-- Memory changes at most at the word that was compared, and not at all on `false`. -/
structure RestoreFramed (s s' : State) (p : Word) (b : Bool) : Prop where
  written : s'.mem ≠ s.mem → (∀ a, a ≠ (s.objects p).realPhysicalFunctionAddress → s'.mem a = s.mem a) ∧
    s.mem (s.objects p).realPhysicalFunctionAddress = (s.objects p).replaceWithInstruction ∧
    s'.mem (s.objects p).realPhysicalFunctionAddress = (s.objects p).replacedInstruction
  nothing : b = false → s'.mem = s.mem ∧ (s'.objects p).isPatched = (s.objects p).isPatched

/-- The restore does not go through, it writes where it compared, or it writes what is there. -/
def WritesWhatItRead (E : Env) (s : State) (p : Word) : Prop :=
  ¬ Restorable E s p ∨ targetAddrPhys E (s.objects p) = (s.objects p).realPhysicalFunctionAddress ∨
    s.mem (targetAddrPhys E (s.objects p)) = (s.objects p).replacedInstruction

theorem restoreFramed_of_eq (s : State) (p : Word) (b : Bool) : RestoreFramed s s p b where
  written := fun h => absurd rfl h
  nothing := fun _ => ⟨rfl, rfl⟩

theorem restored_mem : (restored E s p).mem =
    Function.update s.mem (targetAddrPhys E (s.objects p)) (s.objects p).replacedInstruction := rfl

theorem restored_framed_iff (hr : Restorable E s p) : RestoreFramed s (restored E s p) p true ↔
    targetAddrPhys E (s.objects p) = (s.objects p).realPhysicalFunctionAddress ∨
      s.mem (targetAddrPhys E (s.objects p)) = (s.objects p).replacedInstruction := by
  constructor
  · intro h
    by_contra hne
    rw [not_or] at hne
    have hw : (restored E s p).mem (targetAddrPhys E (s.objects p)) = (s.objects p).replacedInstruction :=
      Function.update_self ..
    have hch : (restored E s p).mem ≠ s.mem := by
      intro e
      rw [e] at hw
      exact hne.2 hw
    exact hne.2 (((h.written hch).1 _ hne.1).symm.trans hw)
  · intro h
    constructor
    · intro hch
      have ht := h.resolve_right (fun e => hch (by rw [restored_mem, ← e, Function.update_eq_self]))
      rw [restored_mem, ht]
      exact ⟨fun a ha => Function.update_of_ne ha .., hr.current, Function.update_self ..⟩
    · intro hb
      cases hb

/-- **The frame of `RestoreFunction`.** A call keeps to the word it compared if and only if it does not
go through, writes there, or writes what is at its target already. -/
theorem restoreFunction_framed_iff (hrun : restoreFunction E s p = .ok (b, s')) :
    RestoreFramed s s' p b ↔ WritesWhatItRead E s p := by
  unfold WritesWhatItRead
  rcases restoreFunction_ok hrun with ⟨hun, _, rfl⟩ | ⟨_, hr, _, rfl⟩ | ⟨hr, rfl, rfl⟩
  · refine iff_of_true (restoreFramed_of_eq ..) (.inl fun hr => ?_)
    rw [hr.patched] at hun
    cases hun
  · exact iff_of_true (restoreFramed_of_eq ..) (.inl hr)
  · rw [restored_framed_iff hr, or_iff_right (not_not.mpr hr)]

end

/-! ## Calls that tell more than they did -/

def waiting : State := allocated (plainEnv 0x10 true) (plainState 0x7c0802a6) (plainData .other 0x02000400 0x1000 .all)

theorem patchFunction_told_iff_waiting :
    PatchTold waiting (afterPatch waiting (patchFunction (plainEnv 0 true) waiting 0x10)) 0x10 true ↔
      JumpArrives (plainEnv 0 true) waiting 0x10 :=
  patchFunction_told_iff (by decide +kernel) (eq_ok_afterPatch (by decide +kernel))

def noThreads : Env := { plainEnv 0 true with pThread := fun _ => false }

theorem noThreads_not_told : (waiting.objects 0x10).isPatched = false ∧
    ∃ s', patchFunction noThreads waiting 0x10 = .ok (true, s') ∧ ¬ PatchTold waiting s' 0x10 true := by
  refine ⟨by decide +kernel, _, eq_ok_afterPatch (s := waiting) (by decide +kernel), fun h => ?_⟩
  have := (h.patched rfl).2
  revert this
  decide +kernel

def nextStarted : State :=
  let s := ran (plainState 0x7c0802a6) [(plainEnv 0x10 true, plainPatch .coreinit 0 0x1000 .all)]
  { s with mem := Function.update s.mem 0x03000000 0x60000000 }

def movedEnv : Env :=
  { plainEnv 0 true with osEffectiveToPhysical := fun a => if a = 0x02000400 then 0x03000000 else a }

theorem restoreFunction_framed_iff_nextStarted :
    RestoreFramed nextStarted (afterPatch nextStarted (restoreFunction (plainEnv 0 true) nextStarted 0x10)) 0x10 true ↔
      WritesWhatItRead (plainEnv 0 true) nextStarted 0x10 :=
  restoreFunction_framed_iff (eq_ok_afterPatch (by decide +kernel))

theorem nextStarted_not_framed :
    ∃ s', restoreFunction movedEnv nextStarted 0x10 = .ok (true, s') ∧ ¬ RestoreFramed nextStarted s' 0x10 true := by
  refine ⟨_, eq_ok_afterPatch (s := nextStarted) (by decide +kernel), fun h => ?_⟩
  have := (h.written fun e => absurd (congrFun e 0x03000000) (by decide +kernel)).1 0x03000000 (by decide +kernel)
  revert this
  decide +kernel

end FunctionPatcher
