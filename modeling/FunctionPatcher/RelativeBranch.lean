import FunctionPatcher.Continuation

/-!
# Functions that begin with a relative branch

The replaced instruction is copied as it is, so a relative branch starts from the
slot of `jumpToOriginal` instead of the function. Only where it falls through is
nothing lost, and only if it does not count the CTR, which holds a far `f + 4`.
-/

namespace FunctionPatcher

open PowerPC (Instruction Machine decode exec At Aligned RunOf)

/-! ## Relative branches -/

/-- `b`, `bl`, `bc` or `bcl` with `AA = 0`. -/
def IsRelativeBranch : Instruction → Prop
  | .b _ aa _ => aa = false
  | .bc _ _ _ aa _ => aa = false
  | _ => False

/-- A `bc` that decrements the CTR and tests it. -/
def countsCtr : Instruction → Bool
  | .bc bo _ _ _ _ => !bo.getLsbD 2
  | _ => false

/-- How far a relative branch goes: its displacement if it is taken, else 4. -/
def branchOffset (i : Instruction) (m : Machine) : Word :=
  match i with
  | .b li _ _ => (li ++ 0#2).signExtend 32
  | .bc bo bi bd _ _ =>
    if PowerPC.taken bo (if bo.getLsbD 2 then m.ctr else m.ctr - 1) (m.cr bi) then (bd ++ 0#2).signExtend 32 else 4
  | _ => 4

section
variable {sem : Word → Machine → Machine} {w : Word} {m m' : Machine}

theorem exec_relativeBranch (h : IsRelativeBranch (decode w)) :
    (exec sem w m).pc = m.pc + branchOffset (decode w) m ∧
      (exec sem w m).ctr = if countsCtr (decode w) then m.ctr - 1 else m.ctr := by
  unfold PowerPC.exec
  cases hd : decode w with
  | b li aa lk =>
    rw [hd] at h
    cases h
    exact ⟨rfl, rfl⟩
  | bc bo bi bd aa lk =>
    rw [hd] at h
    cases h
    refine ⟨?_, ?_⟩
    · simp only [branchOffset, Bool.false_eq_true, if_false]
      exact (apply_ite (m.pc + ·) _ _ _).symm
    · show (if bo.getLsbD 2 = true then m.ctr else m.ctr - 1) = _
      by_cases hb : bo.getLsbD 2 = true
      · rw [if_pos hb, if_neg (by simp only [countsCtr, hb]; decide)]
      · rw [if_neg hb, if_pos (by simpa [countsCtr] using hb)]
  | _ =>
    rw [hd] at h
    exact absurd h id

theorem branchOffset_congr {i : Instruction} (hcr : m'.cr = m.cr) (hctr : countsCtr i = true → m'.ctr = m.ctr) :
    branchOffset i m' = branchOffset i m := by
  unfold branchOffset
  cases i with
  | bc bo bi bd aa lk =>
    simp only [hcr]
    by_cases hb : bo.getLsbD 2 = true
    · have ht : ∀ c c' b, PowerPC.taken bo c b = PowerPC.taken bo c' b := by
        intro c c' b
        unfold PowerPC.taken
        rw [hb, Bool.true_or, Bool.true_or]
      rw [ht _ (if bo.getLsbD 2 = true then m.ctr else m.ctr - 1)]
    · rw [hctr (by simpa [countsCtr] using hb)]
  | _ => rfl

end

/-! ## Where `jumpToOriginal` leads -/

/-- Control that enters `jumpToOriginal` is transferred to `d`. -/
def TransfersTo (sem : Word → Machine → Machine) (code : Word → Word) (r : PatchedFunctionData) (m : Machine)
    (d : Word) : Prop :=
  ∃ m', Passes sem code (InToOriginal r) (fun x => x = toOriginalSlot r + 4) (toOriginalSlot r) m m' ∧ m'.pc = d

/-- The replaced branch leads on to `f + 4` in both places, or, where a far `f + 4` in the CTR is
counted down, what that does is made up for by the displacement. -/
def BranchKept (r : PatchedFunctionData) (i : Instruction) (m : Machine) : Prop :=
  if countsCtr i = true ∧ shortBranchPossible (r.realEffectiveFunctionAddress + 4) = false then
    toOriginalSlot r + branchOffset i { m with ctr := r.realEffectiveFunctionAddress + 4 } =
        r.realEffectiveFunctionAddress + branchOffset i m ∨
      (branchOffset i { m with ctr := r.realEffectiveFunctionAddress + 4 } = 4 ∧ branchOffset i m = 0)
  else branchOffset i m = 4

section
variable {sem : Word → Machine → Machine} {code : Word → Word} {r : PatchedFunctionData} {m : Machine}

theorem transfersTo_iff_pc {m₁ : Machine} {d : Word}
    (hat : At code (fun _ => True) r.jumpToOriginal (jumpToOriginalWords r))
    (hrun : RunOf sem code (InToOriginal r) m m₁) (hpc₁ : m₁.pc = toOriginalSlot r)
    (hw : code (toOriginalSlot r) = r.replacedInstruction)
    (ht : (resumed (r.realEffectiveFunctionAddress + 4) (exec sem r.replacedInstruction m₁)).pc ≠ toOriginalSlot r + 4) :
    TransfersTo sem code r m d ↔ (exec sem r.replacedInstruction m₁).pc = d ∨
      ((exec sem r.replacedInstruction m₁).pc = toOriginalSlot r + 4 ∧
        (resumed (r.realEffectiveFunctionAddress + 4) (exec sem r.replacedInstruction m₁)).pc = d) := by
  have hresume : (exec sem r.replacedInstruction m₁).pc = toOriginalSlot r + 4 →
      RunOf sem code (fun x => x = toOriginalSlot r + 4) (exec sem r.replacedInstruction m₁)
        (resumed (r.realEffectiveFunctionAddress + 4) (exec sem r.replacedInstruction m₁)) :=
    fun h => run_resume sem hat rfl h
  constructor
  · intro ⟨m', ⟨m₂, hfront, hslot, hrest⟩, hd⟩
    have e : m₂ = m₁ := hfront.exit_unique hrun (fun hk => hk.2 hslot) (fun hk => hk.2 hpc₁)
    rw [e, hw] at hrest
    by_cases hbehind : (exec sem r.replacedInstruction m₁).pc = toOriginalSlot r + 4
    · by_cases hm' : m'.pc = toOriginalSlot r + 4
      · left
        rw [hbehind, ← hm', hd]
      · right
        refine ⟨hbehind, ?_⟩
        rw [← hd, hrest.exit_unique (hresume hbehind) hm' ht]
    · left
      rw [← hd, hrest.eq_of_not hbehind]
  · intro h
    rcases h with h | ⟨hbehind, h⟩
    · exact ⟨_, ⟨m₁, hrun, hpc₁, hw.symm ▸ .refl⟩, h⟩
    · exact ⟨_, ⟨m₁, hrun, hpc₁, hw.symm ▸ hresume hbehind⟩, h⟩

theorem transfersTo_iff (hat : At code (fun _ => True) r.jumpToOriginal (jumpToOriginalWords r))
    (hb : IsRelativeBranch (decode r.replacedInstruction)) (halign : Aligned r.realEffectiveFunctionAddress)
    (hout : ¬ inBlock (r.jumpToOriginal, 5) r.realEffectiveFunctionAddress)
    (hout' : ¬ inBlock (r.jumpToOriginal, 5) (r.realEffectiveFunctionAddress + 4)) (hpc : m.pc = r.jumpToOriginal) :
    TransfersTo sem code r m (r.realEffectiveFunctionAddress + branchOffset (decode r.replacedInstruction) m) ↔
      BranchKept r (decode r.replacedInstruction) m := by
  obtain ⟨m₁, hrun, _, hpc₁, hw, hcr, hctr⟩ :=
    enter_toOriginal sem hat (K := InToOriginal r) (fun x hx hne => ⟨hx, hne⟩) hpc
  obtain ⟨hpc₂, hctr₂⟩ : (exec sem r.replacedInstruction m₁).pc = _ ∧ _ := exec_relativeBranch hb
  have hslot : ∀ x, ¬ inBlock (r.jumpToOriginal, 5) x → x ≠ toOriginalSlot r + 4 :=
    fun x hx e => hx (e ▸ toOriginalSlot_add_inBlock r)
  have hf : toOriginalSlot r ≠ r.realEffectiveFunctionAddress := fun e => hout (e ▸ toOriginalSlot_inBlock r)
  unfold BranchKept
  by_cases hc : countsCtr (decode r.replacedInstruction) = true ∧
      shortBranchPossible (r.realEffectiveFunctionAddress + 4) = false
  · -- the far `f + 4` is counted down, and `bctr` goes to `f`
    obtain ⟨hcounts, hs⟩ := hc
    rw [if_pos ⟨hcounts, hs⟩]
    have hfar := Bool.eq_false_iff.mp hs
    rw [if_neg hfar] at hctr
    have ht : (resumed (r.realEffectiveFunctionAddress + 4) (exec sem r.replacedInstruction m₁)).pc =
        r.realEffectiveFunctionAddress := by
      unfold resumed
      rw [if_neg hfar]
      show (exec sem r.replacedInstruction m₁).ctr &&& 0xFFFFFFFC = _
      rw [hctr₂, if_pos hcounts, hctr]
      exact halign.add_three_masked
    have hoff : branchOffset (decode r.replacedInstruction) m₁ =
        branchOffset (decode r.replacedInstruction) { m with ctr := r.realEffectiveFunctionAddress + 4 } :=
      branchOffset_congr hcr fun _ => hctr
    rw [transfersTo_iff_pc hat hrun hpc₁ hw (by rw [ht]; exact hslot _ hout), ht, hpc₂, hpc₁, hoff, add_right_inj,
      left_eq_add]
  · rw [if_neg hc]
    have hctr' : countsCtr (decode r.replacedInstruction) = true → m₁.ctr = m.ctr := by
      intro hcounts
      rw [hctr, if_pos]
      by_contra hs
      exact hc ⟨hcounts, Bool.eq_false_iff.mpr hs⟩
    have ht : (resumed (r.realEffectiveFunctionAddress + 4) (exec sem r.replacedInstruction m₁)).pc =
        r.realEffectiveFunctionAddress + 4 := by
      apply resumed_pc halign.add_four
      intro hs
      have hcounts : ¬ countsCtr (decode r.replacedInstruction) = true := fun h => hc ⟨h, hs⟩
      rw [hctr₂, if_neg hcounts, hctr, if_neg (Bool.eq_false_iff.mp hs)]
    rw [transfersTo_iff_pc hat hrun hpc₁ hw (by rw [ht]; exact hslot _ hout'), ht, hpc₂, hpc₁,
      branchOffset_congr hcr hctr',
      add_left_inj, or_iff_right hf, add_right_inj, add_right_inj]
    exact ⟨fun h => h.1, fun h => ⟨h, h.symm⟩⟩

end

/-- **Functions that begin with a relative branch.** After `PatchFunction`, `*replaceCall` transfers
control to where the branch leads from the function if and only if the branch is `BranchKept`. -/
theorem relativeBranch_called_iff {E : Env} {s s' : State} {p w : Word} {r : PatchedFunctionData}
    {sem : Word → Machine → Machine} {m : Machine} (hun : (s.objects p).isPatched = false)
    (hrun : patchFunction E s p = .ok (true, s')) (hr : s'.objects p = r) (hw : s.mem r.realPhysicalFunctionAddress = w)
    (hown : (buffersOf r).Pairwise BlocksApart) (halign : Aligned r.realEffectiveFunctionAddress)
    (hout : ¬ inBlock (r.jumpToOriginal, 5) r.realEffectiveFunctionAddress)
    (hout' : ¬ inBlock (r.jumpToOriginal, 5) (r.realEffectiveFunctionAddress + 4)) (hb : IsRelativeBranch (decode w))
    (hpc : m.pc = s'.replaceCalls r.realCallFunctionAddressPtr) :
    TransfersTo sem s'.jumpHeap.words r m (exec sem w { m with pc := r.realEffectiveFunctionAddress }).pc ↔
      BranchKept r (decode w) m := by
  obtain ⟨A, hA, rfl⟩ := patchFunction_applies hun hrun
  rw [A.result_objects_self] at hr
  subst hr
  have hat := toOriginal_of_application hA hown
  have hcall : (A.result E s p).replaceCalls (A.record s p).realCallFunctionAddressPtr = (A.record s p).jumpToOriginal :=
    Function.update_self ..
  have hreplaced : (A.record s p).replacedInstruction = w := hw
  rw [hcall] at hpc
  rw [← hreplaced] at hb ⊢
  rw [(exec_relativeBranch hb).1]
  exact transfersTo_iff hat hb halign hout hout' hpc

theorem relativeBranch_called_iff_beq :
    TransfersTo (fun _ m => m) (wordPatched 0x41820100).jumpHeap.words ((wordPatched 0x41820100).objects 0x10)
      (machineAt ((wordPatched 0x41820100).replaceCalls
        ((wordPatched 0x41820100).objects 0x10).realCallFunctionAddressPtr) 2)
      (exec (fun _ m => m) 0x41820100 { machineAt ((wordPatched 0x41820100).replaceCalls
        ((wordPatched 0x41820100).objects 0x10).realCallFunctionAddressPtr) 2 with
          pc := ((wordPatched 0x41820100).objects 0x10).realEffectiveFunctionAddress }).pc := by
  have hrun : patchFunction (plainEnv 0 false) (wordState 0x41820100) 0x10 = .ok (true, wordPatched 0x41820100) :=
    eq_ok_afterPatch (by decide +kernel)
  have hdec : decode 0x41820100 = .bc 12 2 64 false false := by decide
  have hb : IsRelativeBranch (decode 0x41820100) := by
    rw [hdec]
    rfl
  obtain ⟨hout, hout'⟩ := wordPatched_out hrun _ (wordPatched_generated hrun).1.toOriginal_mem
  refine (relativeBranch_called_iff rfl hrun rfl (wordPatched_word hrun) (wordPatched_own hrun)
    (wordPatched_aligned hrun) hout hout' hb rfl).mpr ?_
  rw [hdec]
  unfold BranchKept
  rw [if_neg (fun h => by cases h.1)]
  rfl

theorem thunk_not_called :
    patchFunction (plainEnv 0 false) (wordState 0x48000100) 0x10 = .ok (true, wordPatched 0x48000100) ∧
    (wordState 0x48000100).mem ((wordPatched 0x48000100).objects 0x10).realPhysicalFunctionAddress = 0x48000100 ∧
    ¬ TransfersTo (fun _ m => m) (wordPatched 0x48000100).jumpHeap.words ((wordPatched 0x48000100).objects 0x10)
      (machineAt ((wordPatched 0x48000100).replaceCalls
        ((wordPatched 0x48000100).objects 0x10).realCallFunctionAddressPtr) 2)
      (exec (fun _ m => m) 0x48000100 { machineAt ((wordPatched 0x48000100).replaceCalls
        ((wordPatched 0x48000100).objects 0x10).realCallFunctionAddressPtr) 2 with
          pc := ((wordPatched 0x48000100).objects 0x10).realEffectiveFunctionAddress }).pc := by
  have hrun : patchFunction (plainEnv 0 false) (wordState 0x48000100) 0x10 = .ok (true, wordPatched 0x48000100) :=
    eq_ok_afterPatch (by decide +kernel)
  have hw : (wordState 0x48000100).mem ((wordPatched 0x48000100).objects 0x10).realPhysicalFunctionAddress =
      0x48000100 := wordPatched_word hrun
  obtain ⟨hgen, hreplaced, hcall⟩ := wordPatched_generated hrun
  have hdec : decode 0x48000100 = .b 64 false false := by decide
  have hb : IsRelativeBranch (decode 0x48000100) := by
    rw [hdec]
    rfl
  refine ⟨hrun, hw, ?_⟩
  rw [(exec_relativeBranch hb).1]
  rw [hw] at hreplaced
  rw [← hreplaced] at hb ⊢
  have hpc : (machineAt ((wordPatched 0x48000100).replaceCalls
      ((wordPatched 0x48000100).objects 0x10).realCallFunctionAddressPtr) 2).pc = _ := hcall
  obtain ⟨hout, hout'⟩ := wordPatched_out hrun _ hgen.toOriginal_mem
  have h : TransfersTo (fun _ m => m) (wordPatched 0x48000100).jumpHeap.words _ _ _ ↔ _ :=
    transfersTo_iff hgen.toOriginal hb (wordPatched_aligned hrun) hout hout' hpc
  rw [hreplaced] at hb h ⊢
  intro ht
  have hkept := h.mp ht
  rw [hdec] at hkept
  unfold BranchKept at hkept
  rw [if_neg (fun h => by cases h.1)] at hkept
  revert hkept
  decide +kernel

end FunctionPatcher
