import FunctionPatcher.Patcher

/-!
# What one call of `PatchFunction` or `RestoreFunction` can do

Each function gets one inversion lemma that lists its outcomes with the
resulting state written out; later proofs use these and never unfold the
functions.
-/

namespace FunctionPatcher

def Env.Reads (E : Env) : Prop := localToPhysical E E.stackAddress ≠ 0

/-- `runOnAllCores` gets the word to memory: some thread runs, and the local that a running
thread copies from has a physical address. -/
structure Env.Writes (E : Env) : Prop where
  runs : ∃ c, E.pThread c = true ∧ E.pThreadStack c = true
  mapped : ∀ c, E.pThread c = true → E.pThreadStack c = true →
    localToPhysical E (E.threadAddress c) ≠ 0

theorem readFromPhysicalAddress_eq {E : Env} (h : E.Reads) (s : State) (a : Word) :
    readFromPhysicalAddress E s a = some (s.mem a) := if_neg h

theorem readFromPhysicalAddress_some {E : Env} {s : State} {a w : Word}
    (h : readFromPhysicalAddress E s a = some w) : E.Reads ∧ w = s.mem a := by
  unfold readFromPhysicalAddress at h
  split at h
  · cases h
  · rename_i hr
    simp only [Option.some.injEq] at h
    exact ⟨hr, h.symm⟩

/-! ## Setting a record -/

section
variable (s : State) (p : Word) (r : PatchedFunctionData)

@[simp] theorem setObject_objects_self : (s.setObject p r).objects p = r := Function.update_self ..
@[simp] theorem setObject_mem : (s.setObject p r).mem = s.mem := rfl
@[simp] theorem setObject_replaceCalls : (s.setObject p r).replaceCalls = s.replaceCalls := rfl
@[simp] theorem setObject_jumpHeap : (s.setObject p r).jumpHeap = s.jumpHeap := rfl
@[simp] theorem setObject_provider :
    (s.setObject p r).gFunctionAddressProvider = s.gFunctionAddressProvider := rfl
@[simp] theorem setObject_mcpCalls : (s.setObject p r).mcpCalls = s.mcpCalls := rfl
@[simp] theorem setObject_gPatchedFunctions : (s.setObject p r).gPatchedFunctions = s.gPatchedFunctions := rfl

theorem setObject_objects_ne {q : Word} (h : q ≠ p) : (s.setObject p r).objects q = s.objects q :=
  Function.update_of_ne h ..

theorem setObject_self : s.setObject p (s.objects p) = s := by
  unfold State.setObject; rw [Function.update_eq_self]

end

/-! ## Resolution -/

/-- `PatchFunction` resolves a record to these addresses: those the caller supplied, or a
translated effective address. -/
def Resolves (E : Env) (r : PatchedFunctionData) (effective physical : Word) : Prop :=
  (r.isForExecutable = false ∧ r.library = some .other ∧ effective = r.realEffectiveFunctionAddress ∧
    physical = r.realPhysicalFunctionAddress) ∨
  ((r.isForExecutable = true ∨ r.library ≠ some .other) ∧
    physical = E.osEffectiveToPhysical effective ∧ physical ≠ 0)

theorem shouldBePatched_ok {E : Env} {s s' : State} {r : PatchedFunctionData} {b : Bool}
    (h : shouldBePatched E s r = .ok (b, s')) : ∃ calls, s' = { s with mcpCalls := calls } := by
  unfold shouldBePatched at h
  split at h
  · simp only at h
    split at h
    · cases h; exact ⟨_, rfl⟩
    · split at h
      · cases h
      · cases h; exact ⟨_, rfl⟩
  · cases h; exact ⟨_, rfl⟩

theorem storeFunctionAddresses_ok {E : Env} {s s' : State} {p a : Word} {b : Bool}
    (h : storeFunctionAddresses E s p a = .ok (b, s')) :
    b = true ∧ E.osEffectiveToPhysical a ≠ 0 ∧ s' = s.setObject p { s.objects p with
      realEffectiveFunctionAddress := a
      realPhysicalFunctionAddress := E.osEffectiveToPhysical a } := by
  unfold storeFunctionAddresses at h
  simp only at h
  split at h
  · cases h
  · rename_i h0; cases h; exact ⟨rfl, h0, rfl⟩

theorem updateFunctionAddresses_ok {E : Env} {s s' : State} {p : Word} {b : Bool}
    (h : updateFunctionAddresses E s p = .ok (b, s')) :
    ∃ P, (b = false ∧ s' = { s with gFunctionAddressProvider := P }) ∨
      (b = true ∧ ∃ effective physical, Resolves E (s.objects p) effective physical ∧
        s' = { s with gFunctionAddressProvider := P }.setObject p { s.objects p with
          realEffectiveFunctionAddress := effective
          realPhysicalFunctionAddress := physical }) := by
  unfold updateFunctionAddresses at h
  simp only at h
  by_cases hx : (s.objects p).isForExecutable = true
  · rw [if_pos hx] at h
    refine ⟨s.gFunctionAddressProvider, ?_⟩
    cases ha : getAddressForExecutable E (s.objects p) with
    | error e => rw [ha] at h; cases h
    | ok a =>
      rw [ha] at h
      cases a with
      | none => cases h; exact .inl ⟨rfl, rfl⟩
      | some a =>
        obtain ⟨hb, h0, hs⟩ := storeFunctionAddresses_ok h
        exact .inr ⟨hb, a, _, .inr ⟨.inl hx, rfl, h0⟩, hs⟩
  · rw [if_neg hx] at h
    split at h
    · cases h
    · rename_i hl
      cases h
      refine ⟨s.gFunctionAddressProvider, .inr ⟨rfl, _, _, .inl ⟨by simpa using hx, hl, rfl, rfl⟩, ?_⟩⟩
      exact (setObject_self s p).symm
    · rename_i library hne hl
      split at h
      · cases h
      · split at h
        · cases h; exact ⟨_, .inl ⟨rfl, rfl⟩⟩
        · obtain ⟨hb, h0, hs⟩ := storeFunctionAddresses_ok h
          refine ⟨_, .inr ⟨hb, _, _, .inr ⟨.inr ?_, rfl, h0⟩, hs⟩⟩
          rw [hl]; intro e; exact hne (by simpa using e)

/-- Where `PatchFunction` would write: the addresses the checks and the resolution end with. -/
def targetOf (E : Env) (s : State) (p : Word) : Option (Word × Word) :=
  match shouldBePatched E s (s.objects p) with
  | .ok (true, s) =>
    match updateFunctionAddresses E s p with
    | .ok (true, s) => some ((s.objects p).realEffectiveFunctionAddress, (s.objects p).realPhysicalFunctionAddress)
    | _ => none
  | _ => none

theorem forall_targetOf {E : Env} {s : State} {p effective physical : Word} {P : Word → Word → Prop}
    (h : targetOf E s p = some (effective, physical)) :
    (∀ effective physical, targetOf E s p = some (effective, physical) → P effective physical) ↔ P effective physical := by
  rw [h]
  constructor
  · intro hP
    exact hP _ _ rfl
  · intro hP effective physical he
    cases he
    exact hP

/-! ## Code generation -/

def jumpInstruction (r : PatchedFunctionData) : Word :=
  if 0x01FFFFFC < r.replacementFunctionAddress ∨ r.targetProcess ≠ .all then branchTo r.jumpData
  else branchTo r.replacementFunctionAddress

/-- The jump heap after both generators have run for the record. -/
def generatedWords (E : Env) (s : State) (r : PatchedFunctionData) : Word → Word :=
  let f := storeWords s.jumpHeap.words r.jumpToOriginal (jumpToOriginalWords r)
  if 0x01FFFFFC < r.replacementFunctionAddress ∨ r.targetProcess ≠ .all then
    storeWords f r.jumpData (jumpDataWords E s r)
  else f

structure Allocated (r : PatchedFunctionData) : Prop where
  jumpToOriginal : r.jumpToOriginal ≠ 0
  jumpData : (0x01FFFFFC < r.replacementFunctionAddress ∨ r.targetProcess ≠ .all) →
    r.jumpData ≠ 0 ∧ shortBranchPossible r.jumpData = true

theorem generateJumpToOriginal_ok {s s' : State} {p : Word} {r : PatchedFunctionData} (hr : s.objects p = r)
    (h : generateJumpToOriginal s p = .ok s') :
    r.jumpToOriginal ≠ 0 ∧ s' = { s with
      jumpHeap := { s.jumpHeap with words := storeWords s.jumpHeap.words r.jumpToOriginal (jumpToOriginalWords r) }
      replaceCalls := Function.update s.replaceCalls r.realCallFunctionAddressPtr r.jumpToOriginal } := by
  unfold generateJumpToOriginal at h
  rw [hr] at h
  simp only at h
  split at h
  · cases h
  · rename_i h0; cases h; exact ⟨h0, rfl⟩

theorem generateReplacementJump_ok {E : Env} {s s' : State} {p : Word} {r : PatchedFunctionData}
    (hr : s.objects p = r) (h : generateReplacementJump E s p = .ok s') :
    ((0x01FFFFFC < r.replacementFunctionAddress ∨ r.targetProcess ≠ .all) →
      r.jumpData ≠ 0 ∧ shortBranchPossible r.jumpData = true) ∧
    s' = { s.setObject p { r with replaceWithInstruction := jumpInstruction r } with
      jumpHeap := { s.jumpHeap with
        words := if 0x01FFFFFC < r.replacementFunctionAddress ∨ r.targetProcess ≠ .all
          then storeWords s.jumpHeap.words r.jumpData (jumpDataWords E s r)
          else s.jumpHeap.words } } := by
  unfold generateReplacementJump at h
  rw [hr] at h
  unfold jumpInstruction
  simp only at h
  by_cases hn : 0x01FFFFFC < r.replacementFunctionAddress ∨ r.targetProcess ≠ .all
  · simp only [if_pos hn] at h ⊢
    split at h
    · cases h
    · rename_i h0
      split at h
      · cases h
      · split at h
        · cases h
        · rename_i hs; cases h; exact ⟨fun _ => ⟨h0, by simpa using hs⟩, rfl⟩
  · simp only [if_neg hn] at h ⊢
    cases h; exact ⟨fun hn' => absurd hn' hn, rfl⟩

/-! ## The threads -/

theorem kernelCopyData_self (s : State) (a : Word) : kernelCopyData s a (s.mem a) = s := by
  unfold kernelCopyData; rw [Function.update_eq_self]

theorem kernelCopyData_kernelCopyData (s : State) (a w w' : Word) :
    kernelCopyData (kernelCopyData s a w) a w' = kernelCopyData s a w' := by
  unfold kernelCopyData; simp only [Function.update_idem]

/-- A thread of `runOnAllCores` that can change the word at `physical`. -/
def decides (E : Env) (physical : Word) (c : Core) : Bool :=
  E.pThread c && E.pThreadStack c && (physical ≠ 0 || localToPhysical E (E.threadAddress c) ≠ 0)

def threadWord (E : Env) (mem : Word → Word) (jump : Word) (c : Core) : Word :=
  if localToPhysical E (E.threadAddress c) = 0 then mem 0 else jump

/-- What the threads leave at `physical`: core 0 is the last to run. -/
def threadsWord (E : Env) (mem : Word → Word) (physical jump : Word) : Word :=
  (([Core.core0, .core1, .core2].find? (decides E physical)).map (threadWord E mem jump)).getD (mem physical)

theorem writeDataAndFlushIC_eq {E : Env} {s : State} {p w : Word} {c : Core}
    (hc : E.pThread c = true ∧ E.pThreadStack c = true) :
    writeDataAndFlushIC E p c (kernelCopyData s (s.objects p).realPhysicalFunctionAddress w) =
      kernelCopyData s (s.objects p).realPhysicalFunctionAddress
        (if decides E (s.objects p).realPhysicalFunctionAddress c then
          threadWord E s.mem (s.objects p).replaceWithInstruction c else w) := by
  unfold decides threadWord
  refine (kernelCopyData_kernelCopyData s _ w _).trans (congrArg _ ?_)
  simp only [hc.1, hc.2, Bool.true_and, Bool.or_eq_true, decide_eq_true_eq, kernelCopyData]
  by_cases hm : localToPhysical E (E.threadAddress c) = 0
  · by_cases h0 : (s.objects p).realPhysicalFunctionAddress = 0
    · rw [if_pos hm, if_neg (by simp only [hm, h0, ne_eq, not_true, or_self, not_false_eq_true]), h0,
        Function.update_self]
    · rw [if_pos hm, if_pos (.inl h0), if_pos hm, Function.update_of_ne (Ne.symm h0)]
  · rw [if_neg hm, if_pos (.inr hm), if_neg hm]

theorem threads_write (E : Env) (s : State) (p : Word) (cs : List Core) (w : Word) :
    cs.foldl (fun s c => if E.pThread c ∧ E.pThreadStack c then writeDataAndFlushIC E p c s else s)
        (kernelCopyData s (s.objects p).realPhysicalFunctionAddress w) =
      kernelCopyData s (s.objects p).realPhysicalFunctionAddress
        (((cs.reverse.find? (decides E (s.objects p).realPhysicalFunctionAddress)).map
          (threadWord E s.mem (s.objects p).replaceWithInstruction)).getD w) := by
  induction cs generalizing w with
  | nil => rfl
  | cons c cs ih =>
    rw [List.foldl_cons, List.reverse_cons, List.find?_append]
    by_cases hc : E.pThread c = true ∧ E.pThreadStack c = true
    · rw [if_pos hc, writeDataAndFlushIC_eq hc, ih]
      cases cs.reverse.find? (decides E (s.objects p).realPhysicalFunctionAddress) with
      | some c' => rfl
      | none => cases hd : decides E (s.objects p).realPhysicalFunctionAddress c <;> simp [hd]
    · have hd : decides E (s.objects p).realPhysicalFunctionAddress c = false := by
        unfold decides
        rw [← Bool.and_eq_true] at hc
        simp only [Bool.eq_false_iff.mpr hc, Bool.false_and]
      rw [if_neg hc, ih]
      simp [hd]

theorem runOnAllCores_writeDataAndFlushIC (E : Env) (s : State) (p : Word) :
    runOnAllCores E (writeDataAndFlushIC E p) s =
      kernelCopyData s (s.objects p).realPhysicalFunctionAddress
        (threadsWord E s.mem (s.objects p).realPhysicalFunctionAddress (s.objects p).replaceWithInstruction) := by
  have h := threads_write E s p [.core2, .core1, .core0] (s.mem (s.objects p).realPhysicalFunctionAddress)
  rw [kernelCopyData_self] at h
  exact h

theorem threadsWord_of_writes {E : Env} (h : E.Writes) (mem : Word → Word) (physical jump : Word) :
    threadsWord E mem physical jump = jump := by
  have hd : ∀ c, E.pThread c = true → E.pThreadStack c = true → decides E physical c = true := by
    intro c h₁ h₂
    simp only [decides, h₁, h₂, Bool.true_and, Bool.or_eq_true, decide_eq_true_eq]
    exact .inr (h.mapped c h₁ h₂)
  unfold threadsWord
  cases hf : [Core.core0, .core1, .core2].find? (decides E physical) with
  | none =>
    obtain ⟨c, h₁, h₂⟩ := h.runs
    rw [List.find?_eq_none] at hf
    exact absurd (hd c h₁ h₂) (hf c (by cases c <;> simp))
  | some c =>
    have hc := List.find?_some hf
    simp only [decides, Bool.and_eq_true] at hc
    exact if_neg (h.mapped c hc.1.1 hc.1.2)

/-! ## `PatchFunction` -/

/-- One record applied: the addresses it resolves to, the word that ends up in memory, and
what the checks before it leave behind. -/
structure Application where
  effective : Word
  physical : Word
  written : Word
  provider : FunctionAddressProvider
  mcpCalls : List McpCall

namespace Application

def record (A : Application) (s : State) (p : Word) : PatchedFunctionData :=
  { s.objects p with
    realEffectiveFunctionAddress := A.effective
    realPhysicalFunctionAddress := A.physical
    replacedInstruction := s.mem A.physical
    replaceWithInstruction := jumpInstruction (s.objects p)
    isPatched := true }

def result (A : Application) (E : Env) (s : State) (p : Word) : State where
  mem := Function.update s.mem A.physical A.written
  replaceCalls := Function.update s.replaceCalls (s.objects p).realCallFunctionAddressPtr
    (s.objects p).jumpToOriginal
  jumpHeap := { s.jumpHeap with words := generatedWords E s (A.record s p) }
  gFunctionAddressProvider := A.provider
  mcpCalls := A.mcpCalls
  objects := Function.update s.objects p (A.record s p)
  gPatchedFunctions := s.gPatchedFunctions

theorem result_objects_self (A : Application) (E : Env) (s : State) (p : Word) :
    (A.result E s p).objects p = A.record s p := Function.update_self ..

theorem result_objects_ne (A : Application) (E : Env) (s : State) {p q : Word} (h : q ≠ p) :
    (A.result E s p).objects q = s.objects q := Function.update_of_ne h ..

structure Valid (A : Application) (E : Env) (s : State) (p : Word) : Prop where
  unpatched : (s.objects p).isPatched = false
  reads : E.Reads
  target : targetOf E s p = some (A.effective, A.physical)
  resolves : Resolves E (s.objects p) A.effective A.physical
  written : E.Writes → A.written = jumpInstruction (s.objects p)
  allocated : Allocated (s.objects p)

end Application

theorem applyPatch_ok {E : Env} {s s' : State} {p : Word} {b : Bool} (h : applyPatch E s p = .ok (b, s')) :
    b = true ∧ E.Reads ∧ Allocated (s.objects p) ∧ ∃ w,
      w = threadsWord E s.mem (s.objects p).realPhysicalFunctionAddress (jumpInstruction (s.objects p)) ∧
      s' = (Application.mk (s.objects p).realEffectiveFunctionAddress (s.objects p).realPhysicalFunctionAddress w
        s.gFunctionAddressProvider s.mcpCalls).result E s p := by
  unfold applyPatch at h
  split at h
  · cases h
  rename_i w hw
  obtain ⟨hr, rfl⟩ := readFromPhysicalAddress_some hw
  simp only at h
  -- the record as it is while each generator runs
  let r₁ : PatchedFunctionData :=
    { s.objects p with replacedInstruction := s.mem (s.objects p).realPhysicalFunctionAddress }
  let r₂ : PatchedFunctionData := { r₁ with replaceWithInstruction := jumpInstruction r₁ }
  have h₀ : (s.setObject p r₁).objects p = r₁ := setObject_objects_self ..
  split at h
  · cases h
  rename_i s₁ h₁
  obtain ⟨hj, e₁⟩ := generateJumpToOriginal_ok h₀ h₁
  split at h
  · cases h
  rename_i s₂ h₂
  obtain ⟨hd, e₂⟩ := generateReplacementJump_ok (r := r₁) (by rw [e₁]; exact h₀) h₂
  have h₃ : s₂.objects p = r₂ := by rw [e₂]; exact setObject_objects_self ..
  have hm : s₂.mem = s.mem := by rw [e₂, e₁]; rfl
  let w := threadsWord E s.mem r₂.realPhysicalFunctionAddress (jumpInstruction (s.objects p))
  have e₃ : runOnAllCores E (writeDataAndFlushIC E p) s₂ = kernelCopyData s₂ r₂.realPhysicalFunctionAddress w := by
    rw [runOnAllCores_writeDataAndFlushIC, h₃, hm]
    rfl
  have h₄ : (kernelCopyData s₂ r₂.realPhysicalFunctionAddress w).objects p = r₂ := h₃
  rw [e₃, h₄] at h
  refine ⟨by cases h; rfl, hr, ⟨hj, hd⟩, w, rfl, ?_⟩
  cases h
  rw [e₂, e₁]
  simp only [kernelCopyData, State.setObject, Application.result, Function.update_idem]
  rfl

/-- The ways through `PatchFunction`, with the states in between. -/
theorem patchFunction_branches {E : Env} {s s' : State} {p : Word} {b : Bool}
    (h : patchFunction E s p = .ok (b, s')) :
    ((s.objects p).isPatched = true ∧ b = true ∧ s' = s) ∨
    ((s.objects p).isPatched = false ∧ b = false ∧ shouldBePatched E s (s.objects p) = .ok (false, s')) ∨
    ((s.objects p).isPatched = false ∧ b = false ∧ ∃ s₁, shouldBePatched E s (s.objects p) = .ok (true, s₁) ∧
      updateFunctionAddresses E s₁ p = .ok (false, s')) ∨
    ((s.objects p).isPatched = false ∧ ∃ s₁ s₂, shouldBePatched E s (s.objects p) = .ok (true, s₁) ∧
      updateFunctionAddresses E s₁ p = .ok (true, s₂) ∧ applyPatch E s₂ p = .ok (b, s')) := by
  unfold patchFunction at h
  cases hp : (s.objects p).isPatched with
  | true =>
    rw [hp, if_pos rfl] at h
    cases h
    exact .inl ⟨rfl, rfl, rfl⟩
  | false =>
    rw [hp, if_neg Bool.false_ne_true] at h
    right
    split at h
    · cases h
    · rename_i s₁ h₁
      cases h
      exact .inl ⟨rfl, rfl, h₁⟩
    rename_i s₁ h₁
    right
    split at h
    · cases h
    · rename_i s₂ h₂
      cases h
      exact .inl ⟨rfl, rfl, s₁, h₁, h₂⟩
    · rename_i s₂ h₂
      exact .inr ⟨rfl, s₁, s₂, h₁, h₂, h⟩

/-- The outcomes of `PatchFunction`: the record was patched already, it does not apply or does
not resolve, or it is applied. -/
theorem patchFunction_outcomes {E : Env} {s s' : State} {p : Word} {b : Bool}
    (h : patchFunction E s p = .ok (b, s')) :
    ((s.objects p).isPatched = true ∧ b = true ∧ s' = s) ∨
    ((s.objects p).isPatched = false ∧ targetOf E s p = none ∧ b = false ∧
      ∃ P calls, s' = { s with gFunctionAddressProvider := P, mcpCalls := calls }) ∨
    (b = true ∧ ∃ A : Application, A.Valid E s p ∧
      A.written = threadsWord E s.mem A.physical (jumpInstruction (s.objects p)) ∧ s' = A.result E s p) := by
  rcases patchFunction_branches h with h | ⟨hp, hb, h₁⟩ | ⟨hp, hb, s₁, h₁, h₂⟩ | ⟨hp, s₁, s₂, h₁, h₂, h⟩
  · exact .inl h
  · obtain ⟨calls, e₁⟩ := shouldBePatched_ok h₁
    have htarget : targetOf E s p = none := by
      unfold targetOf
      rw [h₁]
    exact .inr (.inl ⟨hp, htarget, hb, _, calls, e₁⟩)
  · obtain ⟨calls, rfl⟩ := shouldBePatched_ok h₁
    have htarget : targetOf E s p = none := by
      unfold targetOf
      rw [h₁]
      simp only [h₂]
    obtain ⟨P, ⟨_, e₂⟩ | ⟨hb, _⟩⟩ := updateFunctionAddresses_ok h₂
    · exact .inr (.inl ⟨hp, htarget, hb, P, calls, e₂⟩)
    · cases hb
  obtain ⟨calls, rfl⟩ := shouldBePatched_ok h₁
  obtain ⟨P, ⟨hb, _⟩ | ⟨_, effective, physical, hres, e₂⟩⟩ := updateFunctionAddresses_ok h₂
  · cases hb
  have hr₂ : s₂.objects p = { s.objects p with
      realEffectiveFunctionAddress := effective, realPhysicalFunctionAddress := physical } := by
    rw [e₂]; exact setObject_objects_self ..
  have htarget : targetOf E s p = some (effective, physical) := by
    unfold targetOf; rw [h₁]; simp only [h₂, hr₂]
  obtain ⟨hb, hreads, halloc, w, hw, e₃⟩ := applyPatch_ok h
  have hm : s₂.mem = s.mem := by rw [e₂]; rfl
  rw [hr₂] at halloc hw e₃
  have hw : w = threadsWord E s.mem physical (jumpInstruction (s.objects p)) := by
    rw [hw, hm]; rfl
  refine .inr (.inr ⟨hb, ⟨effective, physical, w, P, calls⟩, ⟨hp, hreads, htarget, hres,
    fun hE => hw.trans (threadsWord_of_writes hE ..), ⟨halloc.1, halloc.2⟩⟩, hw, ?_⟩)
  rw [e₃, e₂]
  simp only [Application.result, Application.record, State.setObject, Function.update_idem, Function.update_self]
  rfl

theorem patchFunction_ok {E : Env} {s s' : State} {p : Word} {b : Bool} (h : patchFunction E s p = .ok (b, s')) :
    ((s.objects p).isPatched = true ∧ b = true ∧ s' = s) ∨
    ((s.objects p).isPatched = false ∧ b = false ∧
      ∃ P calls, s' = { s with gFunctionAddressProvider := P, mcpCalls := calls }) ∨
    (b = true ∧ ∃ A : Application, A.Valid E s p ∧ s' = A.result E s p) := by
  rcases patchFunction_outcomes h with h | ⟨hp, _, hb, h⟩ | ⟨hb, A, hA, _, h⟩
  · exact .inl h
  · exact .inr (.inl ⟨hp, hb, h⟩)
  · exact .inr (.inr ⟨hb, A, hA, h⟩)

/-! ## `RestoreFunction` -/

def restored (E : Env) (s : State) (p : Word) : State :=
  (kernelCopyData s (targetAddrPhys E (s.objects p)) (s.objects p).replacedInstruction).setObject p
    { s.objects p with isPatched := false }

structure Restorable (E : Env) (s : State) (p : Word) : Prop where
  patched : (s.objects p).isPatched = true
  replacedInstruction : (s.objects p).replacedInstruction ≠ 0
  effective : (s.objects p).realEffectiveFunctionAddress ≠ 0
  reads : E.Reads
  current : s.mem (s.objects p).realPhysicalFunctionAddress = (s.objects p).replaceWithInstruction

theorem restoreFunction_ok {E : Env} {s s' : State} {p : Word} {b : Bool}
    (h : restoreFunction E s p = .ok (b, s')) :
    ((s.objects p).isPatched = false ∧ b = true ∧ s' = s) ∨
    ((s.objects p).isPatched = true ∧ ¬ Restorable E s p ∧ b = false ∧ s' = s) ∨
    (Restorable E s p ∧ b = true ∧ s' = restored E s p) := by
  unfold restoreFunction at h
  simp only at h
  split at h
  · rename_i hp; cases h; exact .inl ⟨by simpa using hp, rfl, rfl⟩
  rename_i hp
  have hp : (s.objects p).isPatched = true := by simpa using hp
  split at h
  · rename_i h0
    cases h
    exact .inr (.inl ⟨hp, fun hr => h0.elim hr.replacedInstruction hr.effective, rfl, rfl⟩)
  rename_i h0
  rw [not_or] at h0
  split at h
  · rename_i hread
    cases h
    refine .inr (.inl ⟨hp, fun hr => ?_, rfl, rfl⟩)
    rw [readFromPhysicalAddress_eq hr.reads] at hread; cases hread
  rename_i w hread
  obtain ⟨hreads, rfl⟩ := readFromPhysicalAddress_some hread
  split at h
  · rename_i hne; cases h; exact .inr (.inl ⟨hp, fun hr => hne hr.current, rfl, rfl⟩)
  rename_i hcur
  split at h
  · cases h
  · cases h
    exact .inr (.inr ⟨⟨hp, h0.1, h0.2, hreads, not_not.mp hcur⟩, rfl, rfl⟩)

end FunctionPatcher
