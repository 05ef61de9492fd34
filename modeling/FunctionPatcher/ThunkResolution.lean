import FunctionPatcher.LoadedTwice

/-!
# Resolution in memory that is patched

The resolver reads the first instruction of an export from memory as it is. A
jump that a patch has put there is never followed, so an export that branches on
resolves elsewhere once its own first instruction is the target of a patch.
-/

namespace FunctionPatcher

open PowerPC (decode)

/-! ## Exports that branch on -/

/-- A relative branch to another address. -/
def IsThunk (w : Word) : Prop := ∃ li, decode w = .b li false false ∧ li ≠ 0

/-- Where control that enters at `a` goes if `w` is there and a relative branch. -/
def leadsTo (a w : Word) : Word :=
  match decode w with
  | .b li false false => PowerPC.branchTarget a li false
  | _ => a

theorem followBranch_eq_leadsTo (a w : Word) : followBranch a w = leadsTo a w := by
  unfold leadsTo
  split
  · rename_i li h
    exact followBranch_of_relative h
  · rename_i h
    exact followBranch_of_not_relative h

theorem displacement_eq_zero_iff (li : BitVec 24) : (li ++ 0#2).signExtend 32 = 0 ↔ li = 0 := by
  rw [← BitVec.toInt_inj, ← BitVec.toInt_inj, BitVec.toInt_signExtend_of_le (by decide), BitVec.toInt_append_zero]
  show 2 ^ 2 * li.toInt = 0 ↔ li.toInt = 0
  omega

theorem followBranch_ne_iff (a w : Word) : followBranch a w ≠ a ↔ IsThunk w := by
  constructor
  · intro h
    by_cases hb : ∃ li, decode w = .b li false false
    · obtain ⟨li, hli⟩ := hb
      refine ⟨li, hli, fun h0 => h ?_⟩
      rw [followBranch_of_relative hli, (displacement_eq_zero_iff li).mpr h0, add_zero]
    · exact absurd (followBranch_of_not_relative fun li hli => hb ⟨li, hli⟩) h
  · intro ⟨li, hli, h0⟩ h
    rw [followBranch_of_relative hli] at h
    exact h0 ((displacement_eq_zero_iff li).mp (by simpa using h))

/-! ## Records of a library -/

def ByLibrary (r : PatchedFunctionData) : Prop :=
  r.isForExecutable = false ∧ ∃ library, r.library = some library ∧ library ≠ .other

/-- The address of the export that a record names. -/
def namedExport (E : Env) (P : FunctionAddressProvider) (r : PatchedFunctionData) : Option Word :=
  r.library.bind fun library => r.functionName.bind fun functionName => exportAddress E P library functionName

def resolvedTo (E : Env) (realAddress : Word) : Option (Word × Word) :=
  if realAddress = 0 ∨ E.osEffectiveToPhysical realAddress = 0 then none
  else some (realAddress, E.osEffectiveToPhysical realAddress)

section
variable {E : Env} {s t : State} {p : Word}

theorem targetOf_byLibrary (hr : ByLibrary (s.objects p)) : targetOf E s p =
    (namedExport E s.gFunctionAddressProvider (s.objects p)).bind
      fun a => resolvedTo E (followBranch a (load E s a)) := by
  obtain ⟨hx, library, hlib, hne⟩ := hr
  unfold targetOf namedExport
  rw [shouldBePatched_byLibrary hx, hlib, Option.bind_some]
  simp only
  rw [updateFunctionAddresses_byLibrary hx hlib hne]
  cases (s.objects p).functionName with
  | none => rfl
  | some functionName =>
    rw [Option.bind_some]
    have haddress := getEffectiveAddressOfFunction_address E s library functionName
    simp only
    generalize getEffectiveAddressOfFunction E s library functionName = x at haddress ⊢
    cases ha : exportAddress E s.gFunctionAddressProvider library functionName with
    | none =>
      rw [ha] at haddress
      have h0 : x.1 = 0 := haddress
      rw [if_pos h0]
      rfl
    | some a =>
      rw [ha] at haddress
      have hfollow : x.1 = followBranch a (load E s a) := haddress
      rw [Option.bind_some, ← hfollow]
      unfold resolvedTo
      by_cases h0 : x.1 = 0
      · rw [if_pos h0, if_pos (.inl h0)]
      · rw [if_neg h0]
        unfold storeFunctionAddresses
        by_cases hphys : E.osEffectiveToPhysical x.1 = 0
        · simp only [if_pos hphys]
          rw [if_pos (.inr hphys)]
        · rw [if_neg (not_or.mpr ⟨h0, hphys⟩)]
          simp only [if_neg hphys, setObject_objects_self]

/-! ## Whether a record can be applied -/

theorem jumpDataWords_length_eq (E : Env) (s t : State) (r : PatchedFunctionData) (w w' : Word) :
    (jumpDataWords E s { r with replacedInstruction := w }).length =
      (jumpDataWords E t { r with replacedInstruction := w' }).length := by
  have hfilter : (processFilterWords E s { r with replacedInstruction := w }).length =
      (processFilterWords E t { r with replacedInstruction := w' }).length := by
    unfold processFilterWords
    cases r.targetProcess <;> rfl
  have hrest : (notMyProcessWords { r with replacedInstruction := w }).length =
      (notMyProcessWords { r with replacedInstruction := w' }).length := by
    unfold notMyProcessWords
    simp only [List.length_cons]
  have hmyfunc : (myfuncWords { r with replacedInstruction := w }).length =
      (myfuncWords { r with replacedInstruction := w' }).length := rfl
  unfold jumpDataWords
  rw [List.length_append, List.length_append, hmyfunc]
  congr 1
  by_cases ht : r.targetProcess = .all
  · simp only [ht, ne_eq, not_true, if_false]
  · simp only [ne_eq, ht, not_false_eq_true, if_true, List.length_append, hfilter, hrest]

theorem generateReplacementJump_again {t' : State} {r : PatchedFunctionData} {w w' : Word}
    (hs : s.objects p = { r with replacedInstruction := w }) (ht : t.objects p = { r with replacedInstruction := w' })
    (h : generateReplacementJump E t p = .ok t') : ∃ s', generateReplacementJump E s p = .ok s' := by
  unfold generateReplacementJump at h ⊢
  rw [hs]
  rw [ht] at h
  simp only at h ⊢
  rw [jumpDataWords_length_eq E t s r w' w] at h
  by_cases hn : 0x01FFFFFC < r.replacementFunctionAddress ∨ r.targetProcess ≠ .all
  · rw [if_pos hn] at h ⊢
    split at h
    · cases h
    · rename_i h0
      rw [if_neg h0]
      split at h
      · cases h
      · rename_i hlen
        rw [if_neg hlen]
        split at h
        · cases h
        · rename_i hshort
          rw [if_neg hshort]
          exact ⟨_, rfl⟩
  · rw [if_neg hn]
    exact ⟨_, rfl⟩

theorem applyPatch_again {t' : State} {b : Bool} (ho : s.objects p = t.objects p)
    (h : applyPatch E t p = .ok (b, t')) : ∃ s', applyPatch E s p = .ok (true, s') := by
  have hreads := (applyPatch_ok h).2.1
  unfold applyPatch at h ⊢
  rw [readFromPhysicalAddress_eq hreads] at h ⊢
  simp only at h ⊢
  split at h
  · cases h
  rename_i t₁ h₁
  obtain ⟨hj, e₁⟩ := generateJumpToOriginal_ok (setObject_objects_self ..) h₁
  split at h
  · cases h
  rename_i t₂ h₂
  have hgenerated : ∃ s₁, generateJumpToOriginal (s.setObject p { s.objects p with
      replacedInstruction := s.mem (s.objects p).realPhysicalFunctionAddress }) p = .ok s₁ ∧
      s₁.objects p = { t.objects p with
        replacedInstruction := s.mem (s.objects p).realPhysicalFunctionAddress } := by
    unfold generateJumpToOriginal
    rw [setObject_objects_self, ho]
    simp only
    rw [if_neg hj]
    exact ⟨_, rfl, setObject_objects_self ..⟩
  obtain ⟨s₁, hs₁, hobj⟩ := hgenerated
  have ht₁ : t₁.objects p = { t.objects p with
      replacedInstruction := t.mem (t.objects p).realPhysicalFunctionAddress } := by
    rw [e₁]
    exact setObject_objects_self ..
  obtain ⟨s₂, hs₂⟩ := generateReplacementJump_again hobj ht₁ h₂
  rw [hs₁]
  simp only [hs₂]
  exact ⟨_, rfl⟩

theorem targetOf_some {effective physical : Word} (h : targetOf E s p = some (effective, physical)) :
    ∃ s₁ s₂, shouldBePatched E s (s.objects p) = .ok (true, s₁) ∧ updateFunctionAddresses E s₁ p = .ok (true, s₂) ∧
      s₂.objects p = { s.objects p with
        realEffectiveFunctionAddress := effective
        realPhysicalFunctionAddress := physical } := by
  unfold targetOf at h
  split at h
  · rename_i s₁ h₁
    split at h
    · rename_i s₂ h₂
      refine ⟨s₁, s₂, h₁, h₂, ?_⟩
      obtain ⟨calls, rfl⟩ := shouldBePatched_ok h₁
      obtain ⟨P, ⟨hb, _⟩ | ⟨_, effective', physical', _, e⟩⟩ := updateFunctionAddresses_ok h₂
      · cases hb
      · have hobj : s₂.objects p = { s.objects p with
            realEffectiveFunctionAddress := effective', realPhysicalFunctionAddress := physical' } := by
          rw [e]
          exact setObject_objects_self ..
        rw [hobj] at h ⊢
        cases h
        rfl
    · cases h
  · cases h

/-- A record that is applied from one state is applied from another where it resolves to the same addresses. -/
theorem patchFunction_again {t' : State} (ho : s.objects p = t.objects p) (hun : (t.objects p).isPatched = false)
    (htarget : targetOf E s p = targetOf E t p) (h : patchFunction E t p = .ok (true, t')) :
    ∃ s', patchFunction E s p = .ok (true, s') := by
  rcases patchFunction_ok h with ⟨hp, _⟩ | ⟨_, hb, _⟩ | ⟨_, A, hA, _⟩
  · rw [hun] at hp
    cases hp
  · cases hb
  obtain ⟨t₁, t₂, ht₁, ht₂, hobjt⟩ := targetOf_some hA.target
  obtain ⟨s₁, s₂, hs₁, hs₂, hobjs⟩ := targetOf_some (htarget.trans hA.target)
  unfold patchFunction at h ⊢
  rw [hun, ht₁] at h
  simp only [Bool.false_eq_true, if_false, ht₂] at h
  rw [ho, hun, ← ho, hs₁]
  simp only [Bool.false_eq_true, if_false, hs₂]
  exact applyPatch_again (by rw [hobjs, hobjt, ho]) h

end

/-! ## Resolution across patches -/

/-- Whatever records of `R` are applied, every export resolves to the same address. -/
def ResolutionIndependent (E : Env) (s : State) (R : List Word) : Prop :=
  ∀ ps ps' t t', (∀ p ∈ ps, p ∈ R) → (∀ p ∈ ps', p ∈ R) → forEach (patchFunction E) s ps = .ok t →
    forEach (patchFunction E) s ps' = .ok t' → ∀ library functionName,
      (getEffectiveAddressOfFunction E t library functionName).1 =
        (getEffectiveAddressOfFunction E t' library functionName).1

/-- No record that can be applied leads to the first instruction of an export that branches on. -/
def NoThunkPatched (E : Env) (s : State) (R : List Word) : Prop :=
  ∀ p ∈ R, (∃ s', patchFunction E s p = .ok (true, s')) →
    ∀ a, namedExport E s.gFunctionAddressProvider (s.objects p) = some a →
      ∀ library functionName thunk, exportAddress E s.gFunctionAddressProvider library functionName = some thunk →
        E.mmu thunk = E.osEffectiveToPhysical (leadsTo a (load E s a)) → ¬ IsThunk (load E s thunk)

/-- What patching leaves of the unpatched state. -/
structure Undisturbed (E : Env) (s t : State) (R : List Word) : Prop where
  exports : ∀ library functionName, exportAddress E t.gFunctionAddressProvider library functionName =
    exportAddress E s.gFunctionAddressProvider library functionName
  followed : ∀ library functionName a, exportAddress E s.gFunctionAddressProvider library functionName = some a →
    followBranch a (load E t a) = followBranch a (load E s a)
  records : ∀ p ∈ R, (t.objects p).isPatched = false → t.objects p = s.objects p

section
variable {E : Env} {s t t' : State} {R : List Word} {p : Word} {b : Bool}

theorem Undisturbed.refl (E : Env) (s : State) (R : List Word) : Undisturbed E s s R :=
  ⟨fun _ _ => rfl, fun _ _ _ _ => rfl, fun _ _ _ => rfl⟩

theorem Undisturbed.address (h : Undisturbed E s t R) (library : FunctionReplacementLibraryType)
    (functionName : String) : (getEffectiveAddressOfFunction E t library functionName).1 =
      (getEffectiveAddressOfFunction E s library functionName).1 := by
  rw [getEffectiveAddressOfFunction_address, getEffectiveAddressOfFunction_address, h.exports]
  cases ha : exportAddress E s.gFunctionAddressProvider library functionName with
  | none => rfl
  | some a =>
    rw [Option.map_some, Option.map_some, h.followed library functionName a ha]

theorem namedExport_some {P : FunctionAddressProvider} {r : PatchedFunctionData} {a : Word}
    (h : namedExport E P r = some a) : ∃ library functionName, exportAddress E P library functionName = some a := by
  unfold namedExport at h
  obtain ⟨library, _, h⟩ := Option.bind_eq_some_iff.mp h
  obtain ⟨functionName, _, h⟩ := Option.bind_eq_some_iff.mp h
  exact ⟨library, functionName, h⟩

theorem Undisturbed.targetOf (h : Undisturbed E s t R) (hr : ByLibrary (s.objects p)) (ho : t.objects p = s.objects p) :
    targetOf E s p = targetOf E t p := by
  have hexport : namedExport E t.gFunctionAddressProvider (s.objects p) =
      namedExport E s.gFunctionAddressProvider (s.objects p) := by
    unfold namedExport
    simp only [h.exports]
  rw [targetOf_byLibrary hr, targetOf_byLibrary (ho ▸ hr), ho, hexport]
  cases ha : namedExport E s.gFunctionAddressProvider (s.objects p) with
  | none => rfl
  | some a =>
    obtain ⟨library, functionName, hexported⟩ := namedExport_some ha
    rw [Option.bind_some, Option.bind_some, h.followed library functionName a hexported]

theorem exportAddress_patchFunction (hstores : E.StoresOnSuccess) (h : patchFunction E t p = .ok (b, t'))
    (library : FunctionReplacementLibraryType) (functionName : String) :
    exportAddress E t'.gFunctionAddressProvider library functionName =
      exportAddress E t.gFunctionAddressProvider library functionName := by
  rcases patchFunction_provider h with e | ⟨library', e⟩
  · rw [e]
  · rw [e, rplHandleOf_filled, exportAddress_filled hstores]

theorem physical_of_target {effective physical : Word} (hr : ByLibrary (s.objects p))
    (ht : FunctionPatcher.targetOf E s p = some (effective, physical)) :
    ∃ a, namedExport E s.gFunctionAddressProvider (s.objects p) = some a ∧
      physical = E.osEffectiveToPhysical (leadsTo a (load E s a)) := by
  rw [targetOf_byLibrary hr] at ht
  obtain ⟨a, ha, ht⟩ := Option.bind_eq_some_iff.mp ht
  refine ⟨a, ha, ?_⟩
  rw [← followBranch_eq_leadsTo]
  unfold resolvedTo at ht
  split at ht
  · cases ht
  · simp only [Option.some.injEq, Prod.mk.injEq] at ht
    exact ht.2.symm

/-- A record that is tried takes neither the exports nor the first words from those behind it. -/
theorem Undisturbed.step (hstores : E.StoresOnSuccess) (hmapped : E.StacksMapped)
    (hlib : ∀ p ∈ R, ByLibrary (s.objects p))
    (hthunk : (∃ c, E.pThread c = true ∧ E.pThreadStack c = true) → NoThunkPatched E s R)
    (h : Undisturbed E s t R) (hp : p ∈ R) (hrun : patchFunction E t p = .ok (b, t')) : Undisturbed E s t' R := by
  have hexports : ∀ library functionName, exportAddress E t'.gFunctionAddressProvider library functionName =
      exportAddress E s.gFunctionAddressProvider library functionName := by
    intro library functionName
    rw [exportAddress_patchFunction hstores hrun, h.exports]
  rcases patchFunction_outcomes hrun with ⟨_, _, rfl⟩ | ⟨_, _, _, P, calls, rfl⟩ | ⟨rfl, A, hA, hw, rfl⟩
  · exact h
  · exact ⟨hexports, h.followed, h.records⟩
  have ho := h.records p hp hA.unpatched
  have htarget := h.targetOf (hlib p hp) ho
  refine ⟨hexports, ?_, ?_⟩
  · intro library functionName a ha
    rw [← h.followed library functionName a ha]
    show followBranch a (Function.update t.mem A.physical A.written (E.mmu a)) = _
    by_cases hphys : E.mmu a = A.physical
    · rw [hphys, Function.update_self, hw]
      rcases hmapped.writes_or_idle with hE | hE
      · -- the export was no thunk, and the jump in its place is not followed
        obtain ⟨x, hx⟩ := jumpInstruction_eq (t.objects p)
        obtain ⟨a', ha', hphysical⟩ := physical_of_target (hlib p hp) (htarget.trans hA.target)
        have happlies := patchFunction_again ho.symm hA.unpatched htarget hrun
        have hnot := hthunk hE.runs p hp happlies a' ha' library functionName a ha (hphys.trans hphysical)
        rw [threadsWord_of_writes hE, hx, followBranch_branchTo, h.followed library functionName a ha]
        by_contra hne
        exact hnot ((followBranch_ne_iff a _).mp (Ne.symm hne))
      · rw [threadsWord_of_idle hE, ← hphys]
        rfl
    · rw [Function.update_of_ne hphys]
      rfl
  · intro q hq hun
    by_cases hqp : q = p
    · subst hqp
      rw [A.result_objects_self] at hun
      cases hun
    · rw [A.result_objects_ne E t hqp] at hun ⊢
      exact h.records q hq hun

theorem Undisturbed.run (hstores : E.StoresOnSuccess) (hmapped : E.StacksMapped)
    (hlib : ∀ p ∈ R, ByLibrary (s.objects p))
    (hthunk : (∃ c, E.pThread c = true ∧ E.pThreadStack c = true) → NoThunkPatched E s R) {ps : List Word}
    (hps : ∀ p ∈ ps, p ∈ R) (hrun : forEach (patchFunction E) s ps = .ok t') : Undisturbed E s t' R :=
  forEach_induct (fun t => Undisturbed E s t R)
    (fun _ p _ _ hp h hrun => h.step hstores hmapped hlib hthunk (hps p hp) hrun) (.refl E s R) hrun

end

/-- **Resolution and patches.** Resolution does not depend on which records are applied if and only
if none of them, when some thread can write it at all, puts its jump over the branch of an export
that branches on. -/
theorem resolution_independent_iff {E : Env} {s : State} {R : List Word} (hstores : E.StoresOnSuccess)
    (hmapped : E.StacksMapped) (hlib : ∀ p ∈ R, ByLibrary (s.objects p))
    (hun : ∀ p ∈ R, (s.objects p).isPatched = false) :
    ResolutionIndependent E s R ↔
      ((∃ c, E.pThread c = true ∧ E.pThreadStack c = true) → NoThunkPatched E s R) := by
  constructor
  · intro h hruns p hp hpatch a ha library functionName thunk hexport hmmu hthunk
    obtain ⟨s', hpatch⟩ := hpatch
    have hone : forEach (patchFunction E) s [p] = .ok s' := by
      rw [forEach, hpatch]
      rfl
    have hsame := h [] [p] s s' (fun q hq => by cases hq) (fun q hq => List.mem_singleton.mp hq ▸ hp) rfl hone
      library functionName
    rw [getEffectiveAddressOfFunction_address, getEffectiveAddressOfFunction_address,
      exportAddress_patchFunction hstores hpatch, hexport] at hsame
    rcases patchFunction_ok hpatch with ⟨hpp, _⟩ | ⟨_, hb, _⟩ | ⟨_, A, hA, rfl⟩
    · rw [hun p hp] at hpp
      cases hpp
    · cases hb
    obtain ⟨a', ha', hphysical⟩ := physical_of_target (hlib p hp) hA.target
    rw [ha] at ha'
    cases ha'
    -- the jump stands where the branch was
    obtain ⟨x, hx⟩ := jumpInstruction_eq (s.objects p)
    have hjump : load E (A.result E s p) thunk = branchTo x := by
      show Function.update s.mem A.physical A.written (E.mmu thunk) = _
      rw [hmmu, ← hphysical, Function.update_self, hA.written ⟨hruns, hmapped⟩, hx]
    rw [Option.map_some, Option.map_some, Option.getD_some, Option.getD_some, hjump, followBranch_branchTo] at hsame
    exact (followBranch_ne_iff thunk _).mpr hthunk hsame
  · intro h ps ps' t t' hps hps' hrun hrun' library functionName
    have ht := Undisturbed.run hstores hmapped hlib h hps hrun
    have ht' := Undisturbed.run hstores hmapped hlib h hps' hrun'
    rw [ht.address, ht'.address]

def coreinitWaiting : State := allocated (plainEnv 0x10 true) (plainState 0x7c0802a6) (plainData .coreinit 0 0x1000 .all)

theorem resolution_independent_iff_coreinit : ResolutionIndependent (plainEnv 0 true) coreinitWaiting [0x10] := by
  have hall : ∀ {Q : Word → Prop}, Q 0x10 → ∀ p ∈ [(0x10 : Word)], Q p := by
    intro Q h p hp
    rw [List.mem_singleton.mp hp]
    exact h
  refine (resolution_independent_iff (plainEnv_storesOnSuccess 0 true) (plainEnv_writes 0 true).mapped
    (hall ⟨by decide +kernel, .coreinit, by decide +kernel, by decide⟩) (hall (by decide +kernel))).mpr ?_
  intro _ _ _ _ _ _ _ _ thunk hexport _ hthunk
  obtain ⟨rplHandle, hfind, _⟩ := exportAddress_some hexport
  have hword : decode (load (plainEnv 0 true) coreinitWaiting 0x02000400) = .other 0x7c0802a6 := by decide +kernel
  obtain ⟨li, hli, _⟩ := hthunk
  rw [← hfind, show (plainEnv 0 true).osDynLoadFindExport _ _ = 0x02000400 from rfl, hword] at hli
  cases hli

/-- Two exports of coreinit, `f` a branch to `g` and `g` a branch on. -/
def thunkEnv : Env :=
  { plainEnv 0 true with
    osDynLoadFindExport := fun _ functionName => if functionName = "f" then 0x02000400 else 0x02000500 }

def thunkWaiting : State :=
  { coreinitWaiting with
    mem := fun a => if a = 0x02000400 ∨ a = 0x02000500 then 0x48000100 else 0x7c0802a6 }

theorem thunkWaiting_not_independent : thunkEnv.StoresOnSuccess ∧ thunkEnv.StacksMapped ∧
    (∀ p ∈ [(0x10 : Word)], ByLibrary (thunkWaiting.objects p) ∧ (thunkWaiting.objects p).isPatched = false) ∧
    ¬ ResolutionIndependent thunkEnv thunkWaiting [0x10] := by
  refine ⟨plainEnv_storesOnSuccess 0 true, (plainEnv_writes 0 true).mapped, ?_, fun h => ?_⟩
  · intro p hp
    rw [List.mem_singleton.mp hp]
    exact ⟨⟨by decide +kernel, .coreinit, by decide +kernel, by decide⟩, by decide +kernel⟩
  · have := h [] [0x10] thunkWaiting _ (by simp) (by simp) rfl
      (eq_ok_afterPass (s := thunkWaiting) (by decide +kernel)) .coreinit "g"
    revert this
    decide +kernel

end FunctionPatcher
