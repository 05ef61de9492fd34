import FunctionPatcher.Dispatch

/-!
# Continuing the original function

Both buffers execute the replaced instruction at another address and go on to
`f + 4`. They differ in what they leave in r11 and the CTR, which the instruction
may have written.
-/

namespace FunctionPatcher

open PowerPC (Machine decode exec At Aligned RunOf)

/-! ## Instructions that can be moved -/

/-- Which of r11, the CTR and the bits of field 0 an instruction writes. -/
structure Writes where
  r11 : Bool
  ctr : Bool
  cr : BitVec 5 → Bool

/-- An instruction that is no branch and neither depends on its address nor reads r11, the CTR or
field 0: machines that differ in these only (`Kept`) are taken to such machines, and what it writes
does not depend on them. -/
structure Movable (X : Machine → Machine) (W : Writes) : Prop where
  pc : ∀ m, (X m).pc = m.pc + 4
  kept : ∀ m m', Kept m m' → Kept (X m) (X m')
  r11 : if W.r11 then ∀ m m', Kept m m' → (X m').gpr 11 = (X m).gpr 11 else ∀ m, (X m).gpr 11 = m.gpr 11
  ctr : if W.ctr then ∀ m m', Kept m m' → (X m').ctr = (X m).ctr else ∀ m, (X m).ctr = m.ctr
  cr : ∀ i, if W.cr i then ∀ m m', Kept m m' → (X m').cr i = (X m).cr i else ∀ m, (X m).cr i = m.cr i

/-- `m'` has the registers and memory of `m`, but for those of r11, the CTR and field 0 that are not
written. -/
structure SameBut (W : Writes) (m m' : Machine) : Prop where
  kept : Kept m m'
  r11 : W.r11 = true → m'.gpr 11 = m.gpr 11
  ctr : W.ctr = true → m'.ctr = m.ctr
  cr : ∀ i, W.cr i = true → m'.cr i = m.cr i

/-- Control passes the words in front of the slot, the instruction in it once and the words behind
it. -/
def Passes (sem : Word → Machine → Machine) (code : Word → Word) (front back : Word → Prop) (slot : Word)
    (m m' : Machine) : Prop :=
  ∃ m₁, RunOf sem code front m m₁ ∧ m₁.pc = slot ∧ RunOf sem code back (exec sem (code slot) m₁) m'

/-- Control arrives at `next` as if the instruction had been executed at `f`. -/
def Transparent (sem : Word → Machine → Machine) (code : Word → Word) (front back : Word → Prop) (slot w f next : Word)
    (W : Writes) (m : Machine) : Prop :=
  ∃ m', Passes sem code front back slot m m' ∧ m'.pc = next ∧ SameBut W (exec sem w { m with pc := f }) m'

section
variable {X : Machine → Machine} {W : Writes} {m m' : Machine}

theorem Movable.sameBut (h : Movable X W) (hk : Kept m m') : SameBut W (X m) (X m') := by
  refine ⟨h.kept m m' hk, ?_, ?_, ?_⟩
  · intro hw
    have := h.r11
    rw [if_pos hw] at this
    exact this m m' hk
  · intro hw
    have := h.ctr
    rw [if_pos hw] at this
    exact this m m' hk
  · intro i hw
    have := h.cr i
    rw [if_pos hw] at this
    exact this m m' hk

theorem kept_pc (m : Machine) (pc : Word) : Kept { m with pc := pc } m :=
  ⟨rfl, rfl, rfl, fun _ _ => rfl, fun _ _ => rfl⟩

theorem SameBut.resumed (h : SameBut W m m') (next : Word) : SameBut W m (resumed next m') := by
  refine ⟨h.kept.trans (resumed_kept next m'), ?_, ?_, ?_⟩
  all_goals
    unfold FunctionPatcher.resumed
    split
  · exact h.r11
  · exact h.r11
  · exact h.ctr
  · exact h.ctr
  · exact h.cr
  · exact h.cr

theorem sameBut_jumped_iff (h : SameBut W m m') (next : Word) : SameBut W m (jumped next m') ↔
    shortBranchPossible next = true ∨ ((W.r11 = true → m.gpr 11 = next) ∧ (W.ctr = true → m.ctr = next)) := by
  have hkept := h.kept.trans (jumped_kept next m')
  by_cases hs : shortBranchPossible next = true
  · refine iff_of_true ?_ (.inl hs)
    unfold jumped at hkept ⊢
    rw [if_pos hs] at hkept ⊢
    exact ⟨hkept, h.r11, h.ctr, h.cr⟩
  · rw [or_iff_right hs]
    unfold jumped at hkept ⊢
    rw [if_neg hs] at hkept ⊢
    constructor
    · intro hj
      refine ⟨fun hw => ?_, fun hw => (hj.ctr hw).symm⟩
      have := hj.r11 hw
      simp only [Function.update_self] at this
      exact this.symm
    · intro ⟨hr, hc⟩
      refine ⟨hkept, fun hw => ?_, fun hw => (hc hw).symm, h.cr⟩
      simp only [Function.update_self]
      exact (hr hw).symm

end

/-! ## The two ways to continue -/

def InToOriginal (r : PatchedFunctionData) (x : Word) : Prop :=
  inBlock (r.jumpToOriginal, (jumpToOriginalWords r).length) x ∧ x ≠ toOriginalSlot r

section
variable {sem : Word → Machine → Machine} {code : Word → Word} {W : Writes} {r : PatchedFunctionData}
variable {m : Machine} {menu game U u : Word} {n : Nat}

theorem toOriginal_transparent_iff (hat : At code (fun _ => True) r.jumpToOriginal (jumpToOriginalWords r))
    (hX : Movable (exec sem r.replacedInstruction) W) (halign : Aligned (r.realEffectiveFunctionAddress + 4))
    (hout : ¬ inBlock (r.jumpToOriginal, 5) (r.realEffectiveFunctionAddress + 4)) (hpc : m.pc = r.jumpToOriginal) :
    Transparent sem code (InToOriginal r) (fun x => x = toOriginalSlot r + 4) (toOriginalSlot r) r.replacedInstruction
        r.realEffectiveFunctionAddress (r.realEffectiveFunctionAddress + 4) W m ↔
      shortBranchPossible (r.realEffectiveFunctionAddress + 4) = true ∨
        (W.ctr = true → (exec sem r.replacedInstruction { m with pc := r.realEffectiveFunctionAddress }).ctr &&&
          0xFFFFFFFC = r.realEffectiveFunctionAddress + 4) := by
  obtain ⟨m₁, hrun, hkept, hpc₁, hw, _, hctr⟩ :=
    enter_toOriginal sem hat (K := InToOriginal r) (fun x hx hne => ⟨hx, hne⟩) hpc
  have hsame := hX.sameBut ((kept_pc m r.realEffectiveFunctionAddress).trans hkept)
  have hbehind : (exec sem r.replacedInstruction m₁).pc = toOriginalSlot r + 4 := by rw [hX.pc, hpc₁]
  have hback : RunOf sem code (fun x => x = toOriginalSlot r + 4) (exec sem r.replacedInstruction m₁) _ :=
    run_resume sem hat rfl hbehind
  have hb := toOriginal_behind hat
  have hnext : r.realEffectiveFunctionAddress + 4 ≠ toOriginalSlot r + 4 := by
    intro e
    exact hout (e ▸ toOriginalSlot_add_inBlock r)
  generalize hf : r.realEffectiveFunctionAddress + 4 = next at *
  constructor
  · intro ⟨m', ⟨m₂, hfront, hslot, hrest⟩, hpc', _⟩
    have e : m₂ = m₁ := by
      refine hfront.exit_unique hrun ?_ ?_
      · intro hk
        exact hk.2 hslot
      · intro hk
        exact hk.2 hpc₁
    rw [e, hw] at hrest
    rw [or_iff_not_imp_left]
    intro hs hwrites
    rw [← hsame.ctr hwrites]
    have hfar : resumed next (exec sem r.replacedInstruction m₁) = { exec sem r.replacedInstruction m₁ with
        pc := (exec sem r.replacedInstruction m₁).ctr &&& 0xFFFFFFFC } := if_neg hs
    rw [hfar] at hback
    have hbctr : code (toOriginalSlot r + 4) = bctr := by rw [hb, if_neg hs]
    by_cases ht : (exec sem r.replacedInstruction m₁).ctr &&& 0xFFFFFFFC = toOriginalSlot r + 4
    · -- the CTR leads back to the `bctr` itself
      have hstay : m'.pc = toOriginalSlot r + 4 ∧ m'.ctr &&& 0xFFFFFFFC = toOriginalSlot r + 4 := by
        refine hrest.preserves (I := fun m => m.pc = toOriginalSlot r + 4 ∧ m.ctr &&& 0xFFFFFFFC = toOriginalSlot r + 4)
          ?_ ⟨hbehind, ht⟩
        intro m hk hm
        rw [hk, hbctr, exec_bctr]
        exact ⟨hm.2, hm.2⟩
      exact absurd (hpc'.symm.trans hstay.1) hnext
    · have e := hrest.exit_unique hback (by rw [hpc']; exact hnext) ht
      rw [← hpc', e]
  · intro hcond
    refine ⟨_, ⟨m₁, hrun, hpc₁, hw.symm ▸ hback⟩, ?_, hsame.resumed next⟩
    unfold resumed
    by_cases hs : shortBranchPossible next = true
    · rw [if_pos hs]
    · rw [if_neg hs]
      show (exec sem r.replacedInstruction m₁).ctr &&& 0xFFFFFFFC = next
      by_cases hwrites : W.ctr = true
      · rw [hsame.ctr hwrites]
        exact hcond.resolve_left hs hwrites
      · have := hX.ctr
        rw [if_neg hwrites] at this
        rw [this, hctr, if_neg hs]
        exact halign.and_mask

theorem notMyProcess_transparent_iff (h : DataPlaced code (InWritten r n) menu game U r)
    (hX : Movable (exec sem r.replacedInstruction) W) (hmenu : menu < 0x8000) (hgame : game < 0x8000)
    (hall : r.targetProcess ≠ .all) (hacc : accepts menu game r.targetProcess u = false)
    (hout : ¬ inBlock (r.jumpData, n) (r.realEffectiveFunctionAddress + 4)) (hpc : m.pc = r.jumpData)
    (hu : m.mem U = u) :
    Transparent sem code (InWritten r n) (InWritten r n) (dataSlot r) r.replacedInstruction
        r.realEffectiveFunctionAddress (r.realEffectiveFunctionAddress + 4) W m ↔
      shortBranchPossible (r.realEffectiveFunctionAddress + 4) = true ∨
        ((W.r11 = true → (exec sem r.replacedInstruction { m with pc := r.realEffectiveFunctionAddress }).gpr 11 =
            r.realEffectiveFunctionAddress + 4) ∧
          (W.ctr = true → (exec sem r.replacedInstruction { m with pc := r.realEffectiveFunctionAddress }).ctr =
            r.realEffectiveFunctionAddress + 4)) := by
  obtain ⟨⟨m₁, hrun, hkept, hpc₁⟩, hw, hnext, _⟩ := h.enter_filter sem hmenu hgame hall hpc hu
  rw [hacc, if_neg (by decide)] at hpc₁
  have hsame := hX.sameBut ((kept_pc m r.realEffectiveFunctionAddress).trans hkept)
  have hbehind : (exec sem r.replacedInstruction m₁).pc = dataSlot r + 4 := by rw [hX.pc, hpc₁]
  have hback := run_jumpWords sem h.next (hbehind ▸ hnext)
  rw [← sameBut_jumped_iff hsame]
  constructor
  · intro ⟨m', ⟨m₂, hfront, hslot, hrest⟩, hpc', hm'⟩
    have e : m₂ = m₁ := by
      refine hfront.exit_unique hrun ?_ ?_
      · intro hk
        exact hk.2 hall hslot
      · intro hk
        exact hk.2 hall hpc₁
    rw [e, hw] at hrest
    have e := hrest.exit_unique hback (fun hk => hout (hpc' ▸ hk.1))
      (by rw [jumped_pc]; exact fun hk => hout hk.1)
    rwa [e] at hm'
  · intro hm'
    exact ⟨_, ⟨m₁, hrun, hpc₁, hw.symm ▸ hback⟩, jumped_pc _ _, hm'⟩

end

/-! ## After `PatchFunction` -/

def siteOf (E : Env) (r : PatchedFunctionData) : Site :=
  ⟨E.mmu, E.osGetUPID, E.fpTargetProcessWiiUMenu, E.fpTargetProcessGame, r.realEffectiveFunctionAddress,
    r.realPhysicalFunctionAddress⟩

theorem patchFunction_generated {E : Env} {s s' : State} {p U : Word} (hun : (s.objects p).isPatched = false)
    (hrun : patchFunction E s p = .ok (true, s')) (hown : (buffersOf (s'.objects p)).Pairwise BlocksApart)
    (hupid : UpidCode (load E s E.osGetUPID) (load E s (E.osGetUPID + 4)) U) :
    Generated (siteOf E (s'.objects p)) U s'.jumpHeap.words (s'.objects p) ∧
      (s'.objects p).replacedInstruction = s.mem (s'.objects p).realPhysicalFunctionAddress ∧
      s'.replaceCalls (s'.objects p).realCallFunctionAddressPtr = (s'.objects p).jumpToOriginal := by
  obtain ⟨A, hA, rfl⟩ := patchFunction_applies hun hrun
  rw [A.result_objects_self] at hown ⊢
  exact ⟨generated_of_application rfl rfl hA rfl hupid ⟨rfl, rfl⟩ hown, rfl, Function.update_self ..⟩

/-- **Continuing.** After `PatchFunction`, `*replaceCall` continues the function transparently if and
only if `f + 4` is near or the instruction leaves the CTR alone or sets it to `f + 4`. The way past
the filter does if and only if `f + 4` is near or that holds of the CTR and of r11. -/
theorem continuation_transparent_iff {E : Env} {s s' : State} {p U w : Word} {r : PatchedFunctionData}
    {sem : Word → Machine → Machine} {W : Writes} (hun : (s.objects p).isPatched = false)
    (hrun : patchFunction E s p = .ok (true, s')) (hr : s'.objects p = r) (hw : s.mem r.realPhysicalFunctionAddress = w)
    (hown : (buffersOf r).Pairwise BlocksApart) (halign : Aligned r.realEffectiveFunctionAddress)
    (hout : ∀ b ∈ buffersOf r, ¬ inBlock b (r.realEffectiveFunctionAddress + 4))
    (hid : ∀ t, r.targetProcess = .upid t → t < 0x8000) (hmenu : E.fpTargetProcessWiiUMenu < 0x8000)
    (hgame : E.fpTargetProcessGame < 0x8000)
    (hupid : UpidCode (load E s E.osGetUPID) (load E s (E.osGetUPID + 4)) U) (hX : Movable (exec sem w) W) :
    (∀ m, m.pc = s'.replaceCalls r.realCallFunctionAddressPtr →
      (Transparent sem s'.jumpHeap.words (InToOriginal r) (fun x => x = toOriginalSlot r + 4) (toOriginalSlot r) w
          r.realEffectiveFunctionAddress (r.realEffectiveFunctionAddress + 4) W m ↔
        shortBranchPossible (r.realEffectiveFunctionAddress + 4) = true ∨
          (W.ctr = true → (exec sem w { m with pc := r.realEffectiveFunctionAddress }).ctr &&& 0xFFFFFFFC =
            r.realEffectiveFunctionAddress + 4))) ∧
    (∀ m, r.targetProcess ≠ .all → m.pc = r.jumpData →
      accepts E.fpTargetProcessWiiUMenu E.fpTargetProcessGame r.targetProcess (m.mem U) = false →
      (Transparent sem s'.jumpHeap.words (InWritten r 15) (InWritten r 15) (dataSlot r) w
          r.realEffectiveFunctionAddress (r.realEffectiveFunctionAddress + 4) W m ↔
        shortBranchPossible (r.realEffectiveFunctionAddress + 4) = true ∨
          ((W.r11 = true → (exec sem w { m with pc := r.realEffectiveFunctionAddress }).gpr 11 =
              r.realEffectiveFunctionAddress + 4) ∧
            (W.ctr = true → (exec sem w { m with pc := r.realEffectiveFunctionAddress }).ctr =
              r.realEffectiveFunctionAddress + 4)))) := by
  subst hr
  obtain ⟨hgen, hreplaced, hcall⟩ := patchFunction_generated hun hrun hown hupid
  rw [← hreplaced] at hw
  subst hw
  refine ⟨?_, ?_⟩
  · intro m hpc
    rw [hcall] at hpc
    exact toOriginal_transparent_iff hgen.toOriginal hX halign.add_four (hout _ hgen.toOriginal_mem) hpc
  · intro m hall hpc hacc
    have hn : NeedsJumpData (s'.objects p) := .inr hall
    obtain ⟨E', s₁, hm, hg, hat⟩ := hgen.data hn
    have hplaced : DataPlaced s'.jumpHeap.words (InWritten (s'.objects p) 15) E.fpTargetProcessWiiUMenu
        E.fpTargetProcessGame U (s'.objects p) :=
      ⟨halign.add_four, hid, hgen.loads, E', s₁, hm, hg, hat,
        fun x hx hne => ⟨inBlock_mono (jumpDataWords_length E' s₁ _) hx, hne⟩⟩
    exact notMyProcess_transparent_iff hplaced hX hmenu hgame hall hacc (hout _ (hgen.data_mem hn)) hpc rfl

/-! ## A far function with any first word -/

def wordState (w : Word) : State :=
  { upidState with
    mem := fun a => if a = 0x02000800 then 0x3d201000 else if a = 0x02000804 then 0x80690d60 else w
    objects := fun _ => { largestRecord with library := some .other, replacedInstruction := 0 } }

def wordPatched (w : Word) : State := afterPatch (wordState w) (patchFunction (plainEnv 0 false) (wordState w) 0x10)

section
variable {w : Word} (hrun : patchFunction (plainEnv 0 false) (wordState w) 0x10 = .ok (true, wordPatched w))
include hrun

/-- What the record becomes, whatever the word. -/
theorem wordPatched_record : ((wordPatched w).objects 0x10).realEffectiveFunctionAddress = 0x02000400 ∧
    ((wordPatched w).objects 0x10).realPhysicalFunctionAddress = 0x02000400 ∧
    ((wordPatched w).objects 0x10).targetProcess = .gameAndMenu ∧
    buffersOf ((wordPatched w).objects 0x10) = [(0x00900040, 5), (0x00900000, 15)] := by
  obtain ⟨A, hA, e⟩ := patchFunction_applies rfl hrun
  have ht : targetOf (plainEnv 0 false) (wordState w) 0x10 = some (0x02000400, 0x02000400) := rfl
  have ha := Option.some.inj (hA.target.symm.trans ht)
  rw [e, A.result_objects_self]
  exact ⟨congrArg Prod.fst ha, congrArg Prod.snd ha, rfl, rfl⟩

theorem wordPatched_word : (wordState w).mem ((wordPatched w).objects 0x10).realPhysicalFunctionAddress = w := by
  rw [(wordPatched_record hrun).2.1]
  rfl

theorem wordPatched_aligned : Aligned ((wordPatched w).objects 0x10).realEffectiveFunctionAddress := by
  rw [(wordPatched_record hrun).1]
  decide

theorem wordPatched_id : ∀ t, ((wordPatched w).objects 0x10).targetProcess = .upid t → t < 0x8000 := by
  intro t e
  rw [(wordPatched_record hrun).2.2.1] at e
  cases e

theorem wordPatched_own : (buffersOf ((wordPatched w).objects 0x10)).Pairwise BlocksApart := by
  rw [(wordPatched_record hrun).2.2.2, List.pairwise_pair]
  exact blocksApart_of_indices (by decide +kernel)

theorem wordPatched_out : ∀ b ∈ buffersOf ((wordPatched w).objects 0x10),
    ¬ inBlock b ((wordPatched w).objects 0x10).realEffectiveFunctionAddress ∧
      ¬ inBlock b (((wordPatched w).objects 0x10).realEffectiveFunctionAddress + 4) := by
  rw [(wordPatched_record hrun).1, (wordPatched_record hrun).2.2.2]
  decide +kernel

theorem wordPatched_generated : Generated (siteOf (plainEnv 0 false) ((wordPatched w).objects 0x10)) 0x10000d60
      (wordPatched w).jumpHeap.words ((wordPatched w).objects 0x10) ∧
    ((wordPatched w).objects 0x10).replacedInstruction =
      (wordState w).mem ((wordPatched w).objects 0x10).realPhysicalFunctionAddress ∧
    (wordPatched w).replaceCalls ((wordPatched w).objects 0x10).realCallFunctionAddressPtr =
      ((wordPatched w).objects 0x10).jumpToOriginal :=
  patchFunction_generated rfl hrun (wordPatched_own hrun) upidState_code

end

/-! ## A far function that begins with `lis r11` -/

def lisState : State := wordState 0x3d601234

def lisPatched : State := afterPatch lisState (patchFunction (plainEnv 0 false) lisState 0x10)

def lisWrites : Writes := ⟨true, false, fun _ => false⟩

theorem exec_lis (sem : Word → Machine → Machine) (m : Machine) : exec sem 0x3d601234 m =
    { m with pc := m.pc + 4, gpr := Function.update m.gpr 11 0x12340000 } := by
  have : decode 0x3d601234 = .addis 11 0 0x1234 := by decide
  have hb : m.base 0 = 0 := if_pos rfl
  have e : (0 : Word) + ((0x1234 : BitVec 16) ++ 0#16) = 0x12340000 := by decide
  unfold PowerPC.exec
  rw [this]
  simp only [hb, e]

theorem lis_movable (sem : Word → Machine → Machine) : Movable (exec sem 0x3d601234) lisWrites := by
  refine ⟨?_, ?_, ?_, ?_, ?_⟩
  · intro m
    rw [exec_lis]
  · intro m m' h
    rw [exec_lis, exec_lis]
    refine ⟨h.mem, h.lr, h.so, ?_, h.cr⟩
    intro i hi
    show Function.update m'.gpr 11 _ i = Function.update m.gpr 11 _ i
    rw [Function.update_of_ne hi, Function.update_of_ne hi]
    exact h.gpr i hi
  · simp only [lisWrites, if_true]
    intro m m' _
    rw [exec_lis, exec_lis]
    rfl
  · simp only [lisWrites, Bool.false_eq_true, if_false]
    intro m
    rw [exec_lis]
  · intro i
    simp only [lisWrites, Bool.false_eq_true, if_false]
    intro m
    rw [exec_lis]

theorem lisPatched_eq : patchFunction (plainEnv 0 false) lisState 0x10 = .ok (true, lisPatched) :=
  eq_ok_afterPatch (by decide +kernel)

theorem continuation_transparent_iff_lis :
    Transparent (fun _ m => m) lisPatched.jumpHeap.words (InToOriginal (lisPatched.objects 0x10))
      (fun x => x = toOriginalSlot (lisPatched.objects 0x10) + 4) (toOriginalSlot (lisPatched.objects 0x10)) 0x3d601234
      (lisPatched.objects 0x10).realEffectiveFunctionAddress
      ((lisPatched.objects 0x10).realEffectiveFunctionAddress + 4) lisWrites
      (machineAt (lisPatched.replaceCalls (lisPatched.objects 0x10).realCallFunctionAddressPtr) 5) := by
  have h := continuation_transparent_iff (E := plainEnv 0 false) (s := lisState) rfl lisPatched_eq rfl
    (wordPatched_word lisPatched_eq) (wordPatched_own lisPatched_eq) (wordPatched_aligned lisPatched_eq)
    (fun b hb => (wordPatched_out lisPatched_eq b hb).2) (wordPatched_id lisPatched_eq) (by decide) (by decide)
    upidState_code (lis_movable fun _ m => m)
  exact (h.1 _ rfl).mpr (.inr fun hw => by cases hw)

theorem lis_not_transparent :
    Movable (exec (fun _ m => m) 0x3d601234) lisWrites ∧
    patchFunction (plainEnv 0 false) lisState 0x10 = .ok (true, lisPatched) ∧
    lisState.mem (lisPatched.objects 0x10).realPhysicalFunctionAddress = 0x3d601234 ∧
    accepts 2 15 (lisPatched.objects 0x10).targetProcess 5 = false ∧
    ¬ Transparent (fun _ m => m) lisPatched.jumpHeap.words (InWritten (lisPatched.objects 0x10) 15)
      (InWritten (lisPatched.objects 0x10) 15) (dataSlot (lisPatched.objects 0x10)) 0x3d601234
      (lisPatched.objects 0x10).realEffectiveFunctionAddress
      ((lisPatched.objects 0x10).realEffectiveFunctionAddress + 4) lisWrites
      (machineAt (lisPatched.objects 0x10).jumpData 5) := by
  have hX := lis_movable fun _ m => m
  have hw : lisState.mem (lisPatched.objects 0x10).realPhysicalFunctionAddress = 0x3d601234 :=
    wordPatched_word lisPatched_eq
  obtain ⟨heffective, _, htarget, _⟩ : (lisPatched.objects 0x10).realEffectiveFunctionAddress = 0x02000400 ∧ _ ∧
    (lisPatched.objects 0x10).targetProcess = .gameAndMenu ∧ _ := wordPatched_record lisPatched_eq
  have hacc : accepts 2 15 (lisPatched.objects 0x10).targetProcess 5 = false := by
    rw [htarget]
    rfl
  have hall : (lisPatched.objects 0x10).targetProcess ≠ .all := by
    rw [htarget]
    decide
  refine ⟨hX, lisPatched_eq, hw, hacc, ?_⟩
  obtain ⟨hgen, hreplaced, _⟩ :=
    patchFunction_generated (E := plainEnv 0 false) rfl lisPatched_eq (wordPatched_own lisPatched_eq) upidState_code
  rw [hw] at hreplaced
  obtain ⟨E, s, hm, hg, hat⟩ := hgen.data (.inr hall)
  have hplaced : DataPlaced lisPatched.jumpHeap.words (InWritten (lisPatched.objects 0x10) 15) 2 15 0x10000d60
      (lisPatched.objects 0x10) :=
    ⟨(wordPatched_aligned lisPatched_eq).add_four, wordPatched_id lisPatched_eq, hgen.loads, E, s, hm, hg, hat,
      fun x hx hne => ⟨inBlock_mono (jumpDataWords_length E s _) hx, hne⟩⟩
  have hpid : (machineAt (lisPatched.objects 0x10).jumpData 5).mem 0x10000d60 = 5 := rfl
  rw [← hreplaced] at hX ⊢
  rw [notMyProcess_transparent_iff hplaced hX (by decide) (by decide) hall hacc
    (wordPatched_out lisPatched_eq _ (hgen.data_mem (.inr hall))).2 rfl hpid, hreplaced, exec_lis]
  have hfar : ¬ shortBranchPossible ((lisPatched.objects 0x10).realEffectiveFunctionAddress + 4) = true := by
    rw [heffective]
    decide
  intro h
  have h := (h.resolve_left hfar).1 rfl
  revert h
  decide +kernel

end FunctionPatcher
