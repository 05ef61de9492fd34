import FunctionPatcher.Outcomes

/-!
# The instruction caches

A core fetches a word from its own cache if it is there, and `ICInvalidateRange`
drops the range from the cache of the core that executes it. `PatchFunction`
invalidates in a thread on each core, `RestoreFunction` on the core it is called
on.
-/

namespace FunctionPatcher

/-- The module's state and the instruction cache of each core, by effective address. -/
structure Cached where
  state : State
  icaches : Core → Word → Option Word

namespace Cached

def fetch (E : Env) (m : Cached) (c : Core) (a : Word) : Word := (m.icaches c a).getD (load E m.state a)

def fetched (E : Env) (m : Cached) (c : Core) (a : Word) : Cached :=
  { m with icaches := Function.update m.icaches c (Function.update (m.icaches c) a (some (m.fetch E c a))) }

def icInvalidateRange (c : Core) (addr : Word) (size : Nat) (m : Cached) : Cached :=
  { m with icaches := Function.update m.icaches c fun a => if (a - addr).toNat < size then none else m.icaches c a }

/-! ## The functions with their invalidations -/

def writeDataAndFlushIC (E : Env) (p : Word) (c : Core) (m : Cached) : Cached :=
  let r := m.state.objects p
  let m := if r.jumpData ≠ 0 then icInvalidateRange c r.jumpData (r.jumpDataSize * 4) m else m
  let m := if r.jumpToOriginal ≠ 0 then icInvalidateRange c r.jumpToOriginal (5 * 4) m else m
  let m := if r.realCallFunctionAddressPtr ≠ 0 then icInvalidateRange c r.realCallFunctionAddressPtr 4 m else m
  icInvalidateRange c r.realEffectiveFunctionAddress 4
    { m with state := FunctionPatcher.writeDataAndFlushIC E p c m.state }

def runOnAllCores (E : Env) (callback : Core → Cached → Cached) (m : Cached) : Cached :=
  [Core.core2, .core1, .core0].foldl
    (fun m c => if E.pThread c ∧ E.pThreadStack c then callback c m else m) m

def generateJumpToOriginal (c : Core) (m : Cached) (p : Word) : Except String Cached :=
  match FunctionPatcher.generateJumpToOriginal m.state p with
  | .error e => .error e
  | .ok s => .ok (icInvalidateRange c (s.objects p).jumpToOriginal (4 * 5) { m with state := s })

/-- The field `replaceWithInstruction` is behind `replacedInstruction`. -/
def generateReplacementJump (E : Env) (c : Core) (m : Cached) (p : Word) : Except String Cached :=
  match FunctionPatcher.generateReplacementJump E m.state p with
  | .error e => .error e
  | .ok s =>
    let r := s.objects p
    let m := { m with state := s }
    let m := if 0x01FFFFFC < r.replacementFunctionAddress ∨ r.targetProcess ≠ .all then
      icInvalidateRange c r.jumpData (4 * 15) m else m
    .ok (icInvalidateRange c (p + replacedInstructionOffset + 4) 4 m)

def applyPatch (E : Env) (c : Core) (m : Cached) (p : Word) : Except String (Bool × Cached) :=
  match readFromPhysicalAddress E m.state (m.state.objects p).realPhysicalFunctionAddress with
  | none => .error "FunctionPatcherModule: Failed to read instruction."
  | some replacedInstruction =>
    let s := m.state.setObject p { m.state.objects p with replacedInstruction := replacedInstruction }
    match generateJumpToOriginal c { m with state := s } p with
    | .error e => .error e
    | .ok m =>
      match generateReplacementJump E c m p with
      | .error e => .error e
      | .ok m =>
        let m := runOnAllCores E (writeDataAndFlushIC E p) m
        .ok (true, { m with state := m.state.setObject p { m.state.objects p with isPatched := true } })

/-- `PatchFunction`, called on core `c`. -/
def patchFunction (E : Env) (c : Core) (m : Cached) (p : Word) : Except String (Bool × Cached) :=
  if (m.state.objects p).isPatched then .ok (true, m)
  else
    match shouldBePatched E m.state (m.state.objects p) with
    | .error e => .error e
    | .ok (false, s) => .ok (false, { m with state := s })
    | .ok (true, s) =>
      match updateFunctionAddresses E s p with
      | .error e => .error e
      | .ok (false, s) => .ok (false, { m with state := s })
      | .ok (true, s) => applyPatch E c { m with state := s } p

/-- `RestoreFunction`, called on core `c`. -/
def restoreFunction (E : Env) (c : Core) (m : Cached) (p : Word) : Except String (Bool × Cached) :=
  let r := m.state.objects p
  if !r.isPatched then .ok (true, m)
  else if r.replacedInstruction = 0 ∨ r.realEffectiveFunctionAddress = 0 then .ok (false, m)
  else
    match readFromPhysicalAddress E m.state r.realPhysicalFunctionAddress with
    | none => .ok (false, m)
    | some currentInstruction =>
      if currentInstruction ≠ r.replaceWithInstruction then .ok (false, m)
      else if sourceAddrPhys E p = 0 then .error "FunctionPatcherModule: Failed to get physical address"
      else
        let m := { m with state := kernelCopyData m.state (targetAddrPhys E r) r.replacedInstruction }
        let m := icInvalidateRange c r.realEffectiveFunctionAddress 4 m
        .ok (true, { m with state := m.state.setObject p { r with isPatched := false } })

/-! ## What a call drops from the caches -/

section
variable {E : Env} {c k : Core} {m m₁ m₂ : Cached} {p a addr : Word} {size : Nat} {b : Bool}

/-- Nothing enters a cache. -/
def Drops (m m' : Cached) : Prop := ∀ k a, m.icaches k a = none → m'.icaches k a = none

theorem Drops.refl (m : Cached) : Drops m m := fun _ _ h => h

theorem Drops.trans (h₁ : Drops m m₁) (h₂ : Drops m₁ m₂) : Drops m m₂ := fun k a h => h₂ k a (h₁ k a h)

@[simp] theorem icInvalidateRange_state : (icInvalidateRange c addr size m).state = m.state := rfl

theorem icInvalidateRange_self (h : (a - addr).toNat < size) : (icInvalidateRange c addr size m).icaches c a = none := by
  show Function.update m.icaches c _ c a = none
  rw [Function.update_self]
  exact if_pos h

theorem icInvalidateRange_ne (h : k ≠ c) : (icInvalidateRange c addr size m).icaches k = m.icaches k :=
  Function.update_of_ne h ..

theorem icInvalidateRange_drops : Drops m (icInvalidateRange c addr size m) := by
  intro k a h
  by_cases hk : k = c
  · subst hk
    unfold icInvalidateRange
    simp [h]
  · rw [icInvalidateRange_ne hk]
    exact h

theorem drops_ite {x : Prop} [Decidable x] : Drops m (if x then icInvalidateRange c addr size m else m) := by
  split
  · exact icInvalidateRange_drops
  · exact .refl m

theorem ite_state {x : Prop} [Decidable x] :
    (if x then icInvalidateRange c addr size m else m).state = m.state := by
  split
  · rfl
  · rfl

theorem writeDataAndFlushIC_state :
    (writeDataAndFlushIC E p c m).state = FunctionPatcher.writeDataAndFlushIC E p c m.state := by
  simp only [writeDataAndFlushIC, icInvalidateRange_state, ite_state]

theorem writeDataAndFlushIC_drops : Drops m (writeDataAndFlushIC E p c m) :=
  drops_ite.trans (drops_ite.trans (drops_ite.trans icInvalidateRange_drops))

theorem writeDataAndFlushIC_self :
    (writeDataAndFlushIC E p c m).icaches c (m.state.objects p).realEffectiveFunctionAddress = none :=
  icInvalidateRange_self (by simp)

theorem writeDataAndFlushIC_objects : (writeDataAndFlushIC E p c m).state.objects = m.state.objects := by
  rw [writeDataAndFlushIC_state]
  rfl

/-- Over the cores still to run: a core that has run or is to run does not hold the word. -/
theorem threads_invalidate (hall : ∀ c, E.pThread c = true ∧ E.pThreadStack c = true) (k : Core) (cs : List Core)
    (m : Cached) (h : k ∈ cs ∨ m.icaches k (m.state.objects p).realEffectiveFunctionAddress = none) :
    (cs.foldl (fun m c => if E.pThread c ∧ E.pThreadStack c then writeDataAndFlushIC E p c m else m) m).icaches k
      (m.state.objects p).realEffectiveFunctionAddress = none := by
  induction cs generalizing m with
  | nil => exact h.resolve_left (by simp)
  | cons c cs ih =>
    rw [List.foldl_cons, if_pos (hall c)]
    specialize ih (writeDataAndFlushIC E p c m)
    rw [writeDataAndFlushIC_objects] at ih
    apply ih
    by_cases hk : k = c
    · subst hk
      exact .inr writeDataAndFlushIC_self
    · rcases h with h | h
      · exact .inl ((List.mem_cons.mp h).resolve_left hk)
      · exact .inr (writeDataAndFlushIC_drops k _ h)

theorem threads_state (E : Env) (p : Word) (cs : List Core) (m : Cached) :
    (cs.foldl (fun m c => if E.pThread c ∧ E.pThreadStack c then writeDataAndFlushIC E p c m else m) m).state =
      cs.foldl (fun s c => if E.pThread c ∧ E.pThreadStack c then FunctionPatcher.writeDataAndFlushIC E p c s else s)
        m.state := by
  induction cs generalizing m with
  | nil => rfl
  | cons c cs ih =>
    rw [List.foldl_cons, List.foldl_cons, ih]
    by_cases hc : E.pThread c = true ∧ E.pThreadStack c = true
    · rw [if_pos hc, if_pos hc, writeDataAndFlushIC_state]
    · rw [if_neg hc, if_neg hc]

theorem runOnAllCores_state : (runOnAllCores E (writeDataAndFlushIC E p) m).state =
    FunctionPatcher.runOnAllCores E (FunctionPatcher.writeDataAndFlushIC E p) m.state := threads_state E p _ m

/-! ## The functions without the caches -/

def erase (x : Except String (Bool × Cached)) : Except String (Bool × State) := x.map fun r => (r.1, r.2.state)

theorem erase_ok {x : Except String (Bool × Cached)} (h : x = .ok (b, m₁)) : erase x = .ok (b, m₁.state) := by
  rw [h]
  rfl

theorem generateJumpToOriginal_state : (generateJumpToOriginal c m p).map state =
    FunctionPatcher.generateJumpToOriginal m.state p := by
  unfold generateJumpToOriginal
  cases FunctionPatcher.generateJumpToOriginal m.state p with
  | error e => rfl
  | ok s => rfl

theorem generateReplacementJump_state : (generateReplacementJump E c m p).map state =
    FunctionPatcher.generateReplacementJump E m.state p := by
  unfold generateReplacementJump
  cases FunctionPatcher.generateReplacementJump E m.state p with
  | error e => rfl
  | ok s => simp only [Except.map, icInvalidateRange_state, ite_state]

theorem applyPatch_erase : erase (applyPatch E c m p) = FunctionPatcher.applyPatch E m.state p := by
  unfold applyPatch FunctionPatcher.applyPatch
  cases readFromPhysicalAddress E m.state (m.state.objects p).realPhysicalFunctionAddress with
  | none => rfl
  | some w =>
    simp only
    let m₀ : Cached := { m with state := m.state.setObject p { m.state.objects p with replacedInstruction := w } }
    have h₁ : (generateJumpToOriginal c m₀ p).map state = FunctionPatcher.generateJumpToOriginal m₀.state p :=
      generateJumpToOriginal_state
    show erase (match generateJumpToOriginal c m₀ p with | .error e => _ | .ok m => _) =
      match FunctionPatcher.generateJumpToOriginal m₀.state p with | .error e => _ | .ok s => _
    rw [← h₁]
    cases generateJumpToOriginal c m₀ p with
    | error e => rfl
    | ok m₁ =>
      have h₂ : (generateReplacementJump E c m₁ p).map state = FunctionPatcher.generateReplacementJump E m₁.state p :=
        generateReplacementJump_state
      simp only [Except.map]
      rw [← h₂]
      cases generateReplacementJump E c m₁ p with
      | error e => rfl
      | ok m₂ =>
        simp only [erase, Except.map, runOnAllCores_state]

theorem patchFunction_erase : erase (patchFunction E c m p) = FunctionPatcher.patchFunction E m.state p := by
  unfold patchFunction FunctionPatcher.patchFunction
  by_cases hp : (m.state.objects p).isPatched = true
  · rw [if_pos hp, if_pos hp]
    rfl
  rw [if_neg hp, if_neg hp]
  cases shouldBePatched E m.state (m.state.objects p) with
  | error e => rfl
  | ok r =>
    obtain ⟨b, s⟩ := r
    cases b with
    | false => rfl
    | true =>
      simp only
      cases updateFunctionAddresses E s p with
      | error e => rfl
      | ok r =>
        obtain ⟨b, s₁⟩ := r
        cases b with
        | false => rfl
        | true => exact applyPatch_erase

theorem restoreFunction_erase : erase (restoreFunction E c m p) = FunctionPatcher.restoreFunction E m.state p := by
  unfold restoreFunction FunctionPatcher.restoreFunction
  simp only
  split
  · rfl
  split
  · rfl
  cases readFromPhysicalAddress E m.state (m.state.objects p).realPhysicalFunctionAddress with
  | none => rfl
  | some w =>
    simp only
    split
    · rfl
    split
    · rfl
    · rfl

/-! ## What the cores fetch afterwards -/

def AllFetch (E : Env) (m : Cached) (p w : Word) : Prop :=
  ∀ k, m.fetch E k (m.state.objects p).realEffectiveFunctionAddress = w

theorem allFetch_iff_load {w : Word} (h : ∀ k, m.icaches k (m.state.objects p).realEffectiveFunctionAddress = none) :
    AllFetch E m p w ↔ load E m.state (m.state.objects p).realEffectiveFunctionAddress = w := by
  have hf : ∀ k, m.fetch E k (m.state.objects p).realEffectiveFunctionAddress =
      load E m.state (m.state.objects p).realEffectiveFunctionAddress := by
    intro k
    unfold fetch
    rw [h k]
    rfl
  constructor
  · intro h
    exact (hf .core0).symm.trans (h .core0)
  · intro h k
    exact (hf k).trans h

theorem applyPatch_invalidates (hall : ∀ c, E.pThread c = true ∧ E.pThreadStack c = true)
    (hrun : applyPatch E c m p = .ok (b, m₁)) (k : Core) :
    m₁.icaches k (m₁.state.objects p).realEffectiveFunctionAddress = none := by
  unfold applyPatch at hrun
  split at hrun
  · cases hrun
  simp only at hrun
  split at hrun
  · cases hrun
  split at hrun
  · cases hrun
  rename_i m₂ h₂
  cases hrun
  have hobj : (runOnAllCores E (writeDataAndFlushIC E p) m₂).state.objects = m₂.state.objects := by
    rw [runOnAllCores_state, runOnAllCores_writeDataAndFlushIC]
    rfl
  simp only [setObject_objects_self, hobj]
  exact threads_invalidate hall k [.core2, .core1, .core0] m₂ (.inl (by cases k <;> simp))

theorem patchFunction_invalidates (hun : (m.state.objects p).isPatched = false)
    (hall : ∀ c, E.pThread c = true ∧ E.pThreadStack c = true)
    (hrun : patchFunction E c m p = .ok (true, m₁)) (k : Core) :
    m₁.icaches k (m₁.state.objects p).realEffectiveFunctionAddress = none := by
  unfold patchFunction at hrun
  rw [if_neg (by rw [hun]; simp)] at hrun
  split at hrun
  · cases hrun
  · cases hrun
  split at hrun
  · cases hrun
  · cases hrun
  exact applyPatch_invalidates hall hrun k

theorem restoreFunction_icaches (hp : (m.state.objects p).isPatched = true)
    (hrun : restoreFunction E c m p = .ok (true, m₁)) :
    m₁.icaches = (icInvalidateRange c (m.state.objects p).realEffectiveFunctionAddress 4 m).icaches := by
  unfold restoreFunction at hrun
  simp only at hrun
  rw [if_neg (by rw [hp]; simp)] at hrun
  split at hrun
  · cases hrun
  split at hrun
  · cases hrun
  split at hrun
  · cases hrun
  split at hrun
  · cases hrun
  · cases hrun
    rfl

/-- The effective address is that of the word the threads write, and the jump arrives there, or the
jump is at the effective address already. -/
def FetchesJump (E : Env) (s : State) (p : Word) : Prop :=
  ∀ effective physical, targetOf E s p = some (effective, physical) →
    if E.mmu effective = physical then JumpArrives E s p
    else s.mem (E.mmu effective) = jumpInstruction (s.objects p)

/-- The effective address is that of the word that is written, or holds the original word already,
and no other core has another word for it. -/
def FetchesOriginal (E : Env) (c : Core) (m : Cached) (p : Word) : Prop :=
  let r := m.state.objects p
  (E.mmu r.realEffectiveFunctionAddress = targetAddrPhys E r ∨
    m.state.mem (E.mmu r.realEffectiveFunctionAddress) = r.replacedInstruction) ∧
  ∀ k, k ≠ c → ∀ w, m.icaches k r.realEffectiveFunctionAddress = some w → w = r.replacedInstruction

theorem patched_fetch_iff (hun : (m.state.objects p).isPatched = false)
    (hall : ∀ c, E.pThread c = true ∧ E.pThreadStack c = true) (hrun : patchFunction E c m p = .ok (true, m₁)) :
    AllFetch E m₁ p (m₁.state.objects p).replaceWithInstruction ↔ FetchesJump E m.state p := by
  have hbase := erase_ok hrun
  rw [patchFunction_erase] at hbase
  rw [allFetch_iff_load (patchFunction_invalidates hun hall hrun)]
  have htold := patchFunction_told_iff hun hbase
  rcases patchFunction_ok hbase with ⟨hp, _⟩ | ⟨_, hb, _⟩ | ⟨_, A, hA, e⟩
  · rw [hun] at hp
    cases hp
  · cases hb
  have hself : m₁.state.objects p = A.record m.state p := by
    rw [e]
    exact A.result_objects_self E m.state p
  have hmem : m₁.state.mem = Function.update m.state.mem A.physical A.written := by
    rw [e]
    rfl
  unfold FetchesJump load
  rw [forall_targetOf hA.target, hself, hmem]
  show Function.update m.state.mem A.physical A.written (E.mmu A.effective) = jumpInstruction (m.state.objects p) ↔ _
  by_cases hm : E.mmu A.effective = A.physical
  · rw [if_pos hm, hm, Function.update_self, ← htold]
    constructor
    · intro hw
      constructor
      · intro _
        rw [hself, hmem]
        exact ⟨rfl, (Function.update_self ..).trans hw⟩
      · intro hb
        cases hb
    · intro h
      have hw := (h.patched rfl).2
      rw [hself, hmem] at hw
      change Function.update m.state.mem A.physical A.written A.physical = jumpInstruction (m.state.objects p) at hw
      rwa [Function.update_self] at hw
  · rw [if_neg hm, Function.update_of_ne hm]

theorem restored_fetch_iff (hp : (m.state.objects p).isPatched = true)
    (hrun : restoreFunction E c m p = .ok (true, m₁)) :
    AllFetch E m₁ p (m.state.objects p).replacedInstruction ↔ FetchesOriginal E c m p := by
  have hbase := erase_ok hrun
  rw [restoreFunction_erase] at hbase
  have hic := restoreFunction_icaches hp hrun
  rcases restoreFunction_ok hbase with ⟨hun, _⟩ | ⟨_, _, hb, _⟩ | ⟨hr, _, e⟩
  · rw [hp] at hun
    cases hun
  · cases hb
  have hobj : m₁.state.objects p = { m.state.objects p with isPatched := false } := by
    rw [e]
    exact setObject_objects_self ..
  have hload : load E m₁.state (m.state.objects p).realEffectiveFunctionAddress =
      (m.state.objects p).replacedInstruction ↔
      E.mmu (m.state.objects p).realEffectiveFunctionAddress = targetAddrPhys E (m.state.objects p) ∨
        m.state.mem (E.mmu (m.state.objects p).realEffectiveFunctionAddress) =
          (m.state.objects p).replacedInstruction := by
    unfold load
    rw [e, restored_mem]
    by_cases hm : E.mmu (m.state.objects p).realEffectiveFunctionAddress = targetAddrPhys E (m.state.objects p)
    · rw [hm, Function.update_self]
      exact iff_of_true rfl (.inl rfl)
    · rw [Function.update_of_ne hm, or_iff_right hm]
  unfold AllFetch FetchesOriginal fetch
  simp only
  rw [← hload, hobj, hic]
  constructor
  · intro h
    constructor
    · have := h c
      rw [icInvalidateRange_self (by simp)] at this
      exact this
    · intro k hk w hw
      have := h k
      rw [icInvalidateRange_ne hk] at this
      simp only [hw, Option.getD_some] at this
      exact this
  · intro h k
    by_cases hk : k = c
    · subst hk
      rw [icInvalidateRange_self (by simp)]
      exact h.1
    · rw [icInvalidateRange_ne hk]
      simp only
      cases hw : m.icaches k (m.state.objects p).realEffectiveFunctionAddress with
      | none => exact h.1
      | some w => exact h.2 k hk w hw

/-- **Every core.** With its three threads run, `PatchFunction` makes every core fetch the jump if and
only if the effective address is that of the word it writes and the jump arrives; `RestoreFunction`
makes every core fetch the original word if and only if no core but the calling one has another
word for the address. -/
theorem cores_fetch_iff (E : Env) (c : Core) (m m₁ : Cached) (p : Word) :
    ((m.state.objects p).isPatched = false → (∀ c, E.pThread c = true ∧ E.pThreadStack c = true) →
      patchFunction E c m p = .ok (true, m₁) →
      (AllFetch E m₁ p (m₁.state.objects p).replaceWithInstruction ↔ FetchesJump E m.state p)) ∧
    ((m.state.objects p).isPatched = true → restoreFunction E c m p = .ok (true, m₁) →
      (AllFetch E m₁ p (m.state.objects p).replacedInstruction ↔ FetchesOriginal E c m p)) :=
  ⟨patched_fetch_iff, restored_fetch_iff⟩

end

def coldWaiting : Cached := ⟨waiting, fun _ _ => none⟩

def afterCall (m : Cached) : Except String (Bool × Cached) → Cached
  | .ok (true, m') => m'
  | _ => m

theorem eq_ok_afterCall {m : Cached} {x : Except String (Bool × Cached)} (h : applies (erase x) = true) :
    x = .ok (true, afterCall m x) := by
  cases x with
  | error e => cases h
  | ok r =>
    obtain ⟨b, m'⟩ := r
    cases b with
    | false => cases h
    | true => rfl

def coldPatched : Cached :=
  ⟨afterPatch waiting (FunctionPatcher.patchFunction (plainEnv 0 true) waiting 0x10), fun _ _ => none⟩

/-- Core 1 has run the function before. -/
def warmWaiting : Cached := coldWaiting.fetched (plainEnv 0 true) .core1 0x02000400

def warmPatched : Cached := coldPatched.fetched (plainEnv 0 true) .core1 0x02000400

theorem cores_fetch_iff_warm :
    (warmWaiting.icaches .core1 0x02000400 = some 0x7c0802a6 ∧
      ∃ m₁, patchFunction (plainEnv 0 true) .core0 warmWaiting 0x10 = .ok (true, m₁) ∧
        AllFetch (plainEnv 0 true) m₁ 0x10 (m₁.state.objects 0x10).replaceWithInstruction) ∧
    ∃ m₁, restoreFunction (plainEnv 0 true) .core0 warmPatched 0x10 = .ok (true, m₁) ∧
      ¬ AllFetch (plainEnv 0 true) m₁ 0x10 (warmPatched.state.objects 0x10).replacedInstruction := by
  have hpatch := eq_ok_afterCall (m := warmWaiting) (x := patchFunction (plainEnv 0 true) .core0 warmWaiting 0x10)
    (by decide +kernel)
  have hrestore := eq_ok_afterCall (m := warmPatched) (x := restoreFunction (plainEnv 0 true) .core0 warmPatched 0x10)
    (by decide +kernel)
  constructor
  · refine ⟨by decide +kernel, _, hpatch, ?_⟩
    have hiff := (cores_fetch_iff (plainEnv 0 true) .core0 warmWaiting _ 0x10).1 (by decide +kernel)
      (fun _ => ⟨rfl, rfl⟩) hpatch
    rw [hiff]
    have htarget : targetOf (plainEnv 0 true) warmWaiting.state 0x10 = some (0x02000400, 0x02000400) := by decide +kernel
    intro effective physical h
    rw [htarget] at h
    cases h
    rw [if_pos (show (plainEnv 0 true).mmu 0x02000400 = 0x02000400 from rfl)]
    intro effective physical h
    rw [htarget] at h
    cases h
    have hdecides : [Core.core0, .core1, .core2].find? (decides (plainEnv 0 true) 0x02000400) = some .core0 := by
      decide +kernel
    rw [hdecides]
    exact .inl (by decide : (0x1000 : Word) ≠ 0)
  · refine ⟨_, hrestore, ?_⟩
    have hiff := (cores_fetch_iff (plainEnv 0 true) .core0 warmPatched _ 0x10).2 (by decide +kernel) hrestore
    rw [hiff]
    intro h
    have hcached : warmPatched.icaches .core1 (warmPatched.state.objects 0x10).realEffectiveFunctionAddress =
        some (branchTo 0x1000) := by decide +kernel
    have hword := h.2 .core1 (by decide) _ hcached
    revert hword
    decide +kernel

theorem fetched_stays :
    ∃ m₁, patchFunction (plainEnv 0 true) .core0 coldWaiting 0x10 = .ok (true, m₁) ∧
    ∃ m₂, restoreFunction (plainEnv 0 true) .core0 (m₁.fetched (plainEnv 0 true) .core1 0x02000400) 0x10 =
        .ok (true, m₂) ∧
      m₂.fetch (plainEnv 0 true) .core1 0x02000400 = branchTo 0x1000 ∧
      ¬ AllFetch (plainEnv 0 true) m₂ 0x10 (m₁.state.objects 0x10).replacedInstruction := by
  refine ⟨_, eq_ok_afterCall (m := coldWaiting) (by decide +kernel), _,
    eq_ok_afterCall (m := coldWaiting) (by decide +kernel), by decide +kernel, fun h => ?_⟩
  have := h .core1
  revert this
  decide +kernel

end Cached

end FunctionPatcher
