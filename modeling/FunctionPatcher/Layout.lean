import FunctionPatcher.Trampoline

/-!
# The trampoline of one record

`generateReplacementJump` on its own: how much it writes, and where control goes
from the first word of what it wrote.
-/

namespace FunctionPatcher

open PowerPC (Machine decode exec At Aligned RunOf)

/-- The words that a call has written, but for the slot of the replaced instruction. -/
def InWritten (r : PatchedFunctionData) (n : Nat) (x : Word) : Prop :=
  inBlock (r.jumpData, n) x ∧ (r.targetProcess ≠ .all → x ≠ dataSlot r)

section
variable {E : Env} {s : State} {p : Word} {r : PatchedFunctionData}

theorem generateReplacementJump_eq_ok (hr : s.objects p = r) (hn : NeedsJumpData r) (hjd : r.jumpData ≠ 0)
    (hsize : r.jumpDataSize = 15) (hshort : shortBranchPossible r.jumpData = true) :
    generateReplacementJump E s p = .ok { s.setObject p { r with replaceWithInstruction := branchTo r.jumpData } with
      jumpHeap := { s.jumpHeap with words := storeWords s.jumpHeap.words r.jumpData (jumpDataWords E s r) } } := by
  have hlen := jumpDataWords_length E s r
  have hn : 0x01FFFFFC < r.replacementFunctionAddress ∨ r.targetProcess ≠ .all := hn
  unfold generateReplacementJump
  rw [hr]
  simp only
  rw [if_pos hn, if_neg hjd, if_neg (by omega), hshort]
  rfl

theorem dataSlot_written (hall : r.targetProcess ≠ .all) :
    inBlock (r.jumpData, (jumpDataWords E s r).length) (dataSlot r) := by
  refine ⟨(processFilterWords E s r).length, ?_, dataSlot_eq hall⟩
  unfold jumpDataWords
  rw [if_pos hall, notMyProcessWords_eq]
  simp only [List.length_append, List.length_cons]
  omega

end

/-- **Layout of a trampoline.** At most 15 words are written. From the first of them control stays
among them, until it reaches the replacement if the process is accepted, and otherwise `f + 4` after
the one execution of the replaced instruction. -/
theorem trampoline_exact {E : Env} {s : State} {p : Word} {r : PatchedFunctionData} {U u : Word}
    {sem : Word → Machine → Machine} {m : Machine} (hr : s.objects p = r) (hn : NeedsJumpData r) (hjd : r.jumpData ≠ 0)
    (hsize : r.jumpDataSize = 15) (hshort : shortBranchPossible r.jumpData = true)
    (hreplacement : Aligned r.replacementFunctionAddress) (heffective : Aligned r.realEffectiveFunctionAddress)
    (hid : ∀ t, r.targetProcess = .upid t → t < 0x8000) (hmenu : E.fpTargetProcessWiiUMenu < 0x8000)
    (hgame : E.fpTargetProcessGame < 0x8000)
    (hupid : UpidCode (load E s E.osGetUPID) (load E s (E.osGetUPID + 4)) U)
    (horig : ∀ m, (exec sem r.replacedInstruction m).pc = m.pc + 4) (hpc : m.pc = r.jumpData) (hu : m.mem U = u) :
    ∃ s' n, generateReplacementJump E s p = .ok s' ∧ n ≤ 15 ∧
      (∀ x, ¬ inBlock (r.jumpData, n) x → s'.jumpHeap.words x = s.jumpHeap.words x) ∧
      if accepts E.fpTargetProcessWiiUMenu E.fpTargetProcessGame r.targetProcess u then
        ∃ m', RunOf sem s'.jumpHeap.words (InWritten r n) m m' ∧ Kept m m' ∧ m'.pc = r.replacementFunctionAddress
      else ∃ m₁ m₂, RunOf sem s'.jumpHeap.words (InWritten r n) m m₁ ∧ Kept m m₁ ∧ m₁.pc = dataSlot r ∧
        inBlock (r.jumpData, n) m₁.pc ∧ s'.jumpHeap.words m₁.pc = r.replacedInstruction ∧
        RunOf sem s'.jumpHeap.words (InWritten r n) (exec sem r.replacedInstruction m₁) m₂ ∧
        Kept (exec sem r.replacedInstruction m₁) m₂ ∧ m₂.pc = r.realEffectiveFunctionAddress + 4 := by
  have hlen := jumpDataWords_length E s r
  refine ⟨_, (jumpDataWords E s r).length, generateReplacementJump_eq_ok hr hn hjd hsize hshort, hlen,
    fun x hx => storeWords_of_not_inBlock hx, ?_⟩
  have hat : At (storeWords s.jumpHeap.words r.jumpData (jumpDataWords E s r)) (fun _ => True) r.jumpData
      (jumpDataWords E s r) := at_storeWords (by omega)
  have hplaced : DataPlaced (storeWords s.jumpHeap.words r.jumpData (jumpDataWords E s r))
      (InWritten r (jumpDataWords E s r).length) E.fpTargetProcessWiiUMenu E.fpTargetProcessGame U r :=
    ⟨heffective.add_four, hid, fun hall => loadsR11_of_at hupid ⟨rfl, rfl⟩ hall hat, E, s, rfl, rfl, hat,
      fun x hx hne => ⟨hx, hne⟩⟩
  obtain ⟨m₁, hrun, hkept, hsorted⟩ := hplaced.enter_data sem hmenu hgame hreplacement hpc hu
  unfold Sorted at hsorted
  by_cases hacc : accepts E.fpTargetProcessWiiUMenu E.fpTargetProcessGame r.targetProcess u = true
  · rw [if_pos hacc] at hsorted ⊢
    exact ⟨m₁, hrun, hkept, hsorted⟩
  · rw [if_neg hacc] at hsorted ⊢
    obtain ⟨hall, hpc₁, hw, hback⟩ := hsorted
    have hback := hback (exec sem r.replacedInstruction m₁) (by rw [horig, hpc₁])
    refine ⟨m₁, _, hrun, hkept, hpc₁, hpc₁ ▸ dataSlot_written hall, hpc₁ ▸ hw, hback, jumped_kept _ _, jumped_pc _ _⟩

def machineAt (pc u : Word) : Machine := ⟨pc, fun _ => 0, 0, 0, fun _ => false, false, fun _ => u⟩

def largestRecord : PatchedFunctionData :=
  { jumpToOriginal := 0x00900040, jumpData := 0x00900000, realEffectiveFunctionAddress := 0x02000400
    realPhysicalFunctionAddress := 0x02000400, replacementFunctionAddress := 0x03000000
    replacedInstruction := 0x7c0802a6, targetProcess := .gameAndMenu }

def largestState : State := { upidState with objects := fun _ => largestRecord }

theorem trampoline_exact_largest :
    ∃ s' n, generateReplacementJump (plainEnv 0 false) largestState 0x10 = .ok s' ∧ n ≤ 15 ∧
      (∀ x, ¬ inBlock (0x00900000, n) x → s'.jumpHeap.words x = largestState.jumpHeap.words x) ∧
      if accepts 2 15 .gameAndMenu 5 then
        ∃ m', RunOf (fun _ m => { m with pc := m.pc + 4 }) s'.jumpHeap.words (InWritten largestRecord n)
          (machineAt 0x00900000 5) m' ∧ Kept (machineAt 0x00900000 5) m' ∧ m'.pc = 0x03000000
      else ∃ m₁ m₂, RunOf (fun _ m => { m with pc := m.pc + 4 }) s'.jumpHeap.words (InWritten largestRecord n)
          (machineAt 0x00900000 5) m₁ ∧ Kept (machineAt 0x00900000 5) m₁ ∧ m₁.pc = dataSlot largestRecord ∧
        inBlock (0x00900000, n) m₁.pc ∧ s'.jumpHeap.words m₁.pc = 0x7c0802a6 ∧
        RunOf (fun _ m => { m with pc := m.pc + 4 }) s'.jumpHeap.words (InWritten largestRecord n)
          (exec (fun _ m => { m with pc := m.pc + 4 }) 0x7c0802a6 m₁) m₂ ∧
        Kept (exec (fun _ m => { m with pc := m.pc + 4 }) 0x7c0802a6 m₁) m₂ ∧ m₂.pc = 0x02000404 := by
  have hn : NeedsJumpData largestRecord := .inl (by decide)
  have horig : ∀ m, (exec (fun _ m => { m with pc := m.pc + 4 }) largestRecord.replacedInstruction m).pc = m.pc + 4 :=
    fun _ => rfl
  have hid : ∀ t, largestRecord.targetProcess = .upid t → t < 0x8000 := fun _ e => by cases e
  have hpid : (machineAt 0x00900000 5).mem 0x10000d60 = 5 := rfl
  exact trampoline_exact (E := plainEnv 0 false) rfl hn (by decide) rfl (by decide) (by decide) (by decide) hid
    (by decide) (by decide) upidState_code horig rfl hpid

end FunctionPatcher
