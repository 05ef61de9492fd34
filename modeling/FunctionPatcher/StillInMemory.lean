import FunctionPatcher.Runs

/-!
# Patches that are still in memory

`CheckIfPatchedFunctionsAreStillInMemory` goes through the list from its end with
two growing sets. It decides for each address by the last patched record there,
for all records of the address alike.
-/

namespace FunctionPatcher

/-! ## The decision -/

def patchedAt (s : State) (a p : Word) : Bool :=
  (s.objects p).isPatched && decide ((s.objects p).realPhysicalFunctionAddress = a)

/-- The last record of the list that is patched at `a` finds its jump there. -/
def jumpInPlace (s : State) (a : Word) : Bool :=
  match (s.gPatchedFunctions.filter (patchedAt s a)).getLast? with
  | some p => s.mem a = (s.objects p).replaceWithInstruction
  | none => false

/-- Every address is decided for itself. -/
def decided (s : State) : State :=
  { s with objects := fun p =>
      if p ∈ s.gPatchedFunctions ∧ jumpInPlace s (s.objects p).realPhysicalFunctionAddress = false then
        { s.objects p with isPatched := false }
      else s.objects p }

/-! ## The loop -/

def firstPatched (s : State) (qs : List Word) (a : Word) : Option Word := qs.find? (patchedAt s a)

def JumpGone (E : Env) (s : State) (qs : List Word) (a : Word) : Prop :=
  E.Reads ∧ ∃ p, firstPatched s qs a = some p ∧ s.mem a ≠ (s.objects p).replaceWithInstruction

section
variable {E : Env} {s s' : State} {p q a : Word} {qs : List Word}

theorem patchedAt_iff : patchedAt s a p = true ↔
    (s.objects p).isPatched = true ∧ (s.objects p).realPhysicalFunctionAddress = a := by
  unfold patchedAt
  simp

theorem firstPatched_cons_self (hp : (s.objects p).isPatched = true) :
    firstPatched s (p :: qs) (s.objects p).realPhysicalFunctionAddress = some p := by
  simp [firstPatched, patchedAt, hp]

theorem firstPatched_cons_skip (h : (s.objects p).isPatched = true → (s.objects p).realPhysicalFunctionAddress ≠ a) :
    firstPatched s (p :: qs) a = firstPatched s qs a := by
  unfold firstPatched
  rw [List.find?_cons_of_neg]
  intro hp
  rw [patchedAt_iff] at hp
  exact h hp.1 hp.2

theorem jumpGone_skip (h : (s.objects p).isPatched = true → (s.objects p).realPhysicalFunctionAddress ≠ a) :
    JumpGone E s (p :: qs) a ↔ JumpGone E s qs a := by
  unfold JumpGone
  rw [firstPatched_cons_skip h]

theorem jumpGone_cons_self (hr : E.Reads) (hp : (s.objects p).isPatched = true) :
    JumpGone E s (p :: qs) (s.objects p).realPhysicalFunctionAddress ↔
      s.mem (s.objects p).realPhysicalFunctionAddress ≠ (s.objects p).replaceWithInstruction := by
  unfold JumpGone
  rw [firstPatched_cons_self hp]
  constructor
  · intro ⟨_, p', hp', hw⟩
    cases hp'
    exact hw
  · intro hw
    exact ⟨hr, p, rfl, hw⟩

theorem clearPatched_self : (clearPatched s p).objects p = { s.objects p with isPatched := false } :=
  setObject_objects_self ..

theorem clearPatched_ne (h : q ≠ p) : (clearPatched s p).objects q = s.objects q :=
  setObject_objects_ne _ _ _ h

theorem patchedAt_clearPatched (h : (s.objects p).realPhysicalFunctionAddress ≠ a) :
    patchedAt (clearPatched s p) a = patchedAt s a := by
  funext x
  unfold patchedAt
  by_cases hx : x = p
  · subst hx
    simp [clearPatched_self, h]
  · rw [clearPatched_ne hx]

theorem jumpGone_clearPatched (h : (s.objects p).realPhysicalFunctionAddress ≠ a) :
    JumpGone E (clearPatched s p) qs a ↔ JumpGone E s qs a := by
  have hw : ∀ x, ((clearPatched s p).objects x).replaceWithInstruction = (s.objects x).replaceWithInstruction := by
    intro x
    by_cases hx : x = p
    · subst hx
      rw [clearPatched_self]
    · rw [clearPatched_ne hx]
  unfold JumpGone firstPatched
  rw [patchedAt_clearPatched h]
  simp only [hw]
  rfl

end

/-- **Step lemma of the check**, over the records it still has to visit: a flag stays unless the
address is known to have changed, or is about to be found changed. -/
theorem checkLoop_isPatched (E : Env) (q : Word) (qs : List Word) (s : State) (cs : CheckSets) :
    ((checkLoop E s cs qs).objects q).isPatched = true ↔ (s.objects q).isPatched = true ∧
      (q ∈ qs → (s.objects q).realPhysicalFunctionAddress ∈ cs.physicalAddressesUnchanged ∨
        ((s.objects q).realPhysicalFunctionAddress ∉ cs.physicalAddressesChanged ∧
          ¬ JumpGone E s qs (s.objects q).realPhysicalFunctionAddress)) := by
  induction qs generalizing s cs with
  | nil => simp [checkLoop]
  | cons p qs ih =>
    simp only [checkLoop]
    by_cases hskip : (!(s.objects p).isPatched) = true ∨
        (s.objects p).realPhysicalFunctionAddress ∈ cs.physicalAddressesUnchanged
    · rw [if_pos hskip, ih]
      by_cases hqp : q = p
      · subst hqp
        cases hq : (s.objects q).isPatched with
        | false => simp
        | true => simp [hskip.resolve_left (by simp [hq])]
      · by_cases hu : (s.objects q).realPhysicalFunctionAddress ∈ cs.physicalAddressesUnchanged
        · simp [hu]
        · rw [jumpGone_skip]
          · simp [hqp]
          · intro hpp e
            exact hu (e ▸ hskip.resolve_left (by simp [hpp]))
    rw [if_neg hskip]
    simp only [not_or, Bool.not_eq_true, Bool.not_eq_false'] at hskip
    obtain ⟨hpp, hpu⟩ := hskip
    by_cases hc : (s.objects p).realPhysicalFunctionAddress ∈ cs.physicalAddressesChanged
    · rw [if_pos hc, ih]
      by_cases hqp : q = p
      · subst hqp
        simp [clearPatched_self, hpu, hc]
      · rw [clearPatched_ne hqp]
        by_cases hb : (s.objects p).realPhysicalFunctionAddress = (s.objects q).realPhysicalFunctionAddress
        · rw [hb] at hpu hc
          simp [hpu, hc, hqp]
        · rw [jumpGone_clearPatched hb, jumpGone_skip fun _ => hb]
          simp [hqp]
    rw [if_neg hc]
    split
    · rename_i hread
      have hr : ¬ E.Reads := by
        intro hr
        rw [readFromPhysicalAddress_eq hr] at hread
        cases hread
      rw [ih]
      by_cases hqp : q = p
      · subst hqp
        simp [hc, JumpGone, hr]
      · simp [hqp, JumpGone, hr]
    · rename_i w hread
      obtain ⟨hr, rfl⟩ := readFromPhysicalAddress_some hread
      have hself : JumpGone E s (p :: qs) (s.objects p).realPhysicalFunctionAddress ↔ _ := jumpGone_cons_self hr hpp
      by_cases hw : s.mem (s.objects p).realPhysicalFunctionAddress = (s.objects p).replaceWithInstruction
      · rw [if_pos hw, ih]
        by_cases hqp : q = p
        · subst hqp
          simp [hc, hself, hw]
        · by_cases hb : (s.objects p).realPhysicalFunctionAddress = (s.objects q).realPhysicalFunctionAddress
          · rw [hb] at hself hc hw
            simp [hb, hself, hc, hw]
          · rw [jumpGone_skip fun _ => hb]
            simp [hqp, Ne.symm hb]
      · rw [if_neg hw, ih]
        by_cases hqp : q = p
        · subst hqp
          simp [clearPatched_self, hpu, hself, hw]
        · rw [clearPatched_ne hqp]
          by_cases hb : (s.objects p).realPhysicalFunctionAddress = (s.objects q).realPhysicalFunctionAddress
          · rw [hb] at hself hpu hw
            simp [hb, hself, hpu, hw, hqp]
          · rw [jumpGone_clearPatched hb, jumpGone_skip fun _ => hb]
            simp [hqp, Ne.symm hb]

/-! ## The check is the decision -/

section
variable {E : Env} {s : State} {a p : Word}

theorem jumpGone_iff (hr : E.Reads) : JumpGone E s s.gPatchedFunctions.reverse a ↔
    (∃ p ∈ s.gPatchedFunctions, patchedAt s a p = true) ∧ jumpInPlace s a = false := by
  have hfind : firstPatched s s.gPatchedFunctions.reverse a = (s.gPatchedFunctions.filter (patchedAt s a)).getLast? := by
    rw [firstPatched, ← List.head?_filter, List.filter_reverse, List.head?_reverse]
  unfold JumpGone jumpInPlace
  rw [hfind]
  cases hl : (s.gPatchedFunctions.filter (patchedAt s a)).getLast? with
  | none =>
    rw [List.getLast?_eq_none_iff, List.filter_eq_nil_iff] at hl
    constructor
    · intro ⟨_, q, hq, _⟩
      cases hq
    · intro ⟨⟨q, hq, hqa⟩, _⟩
      exact absurd hqa (hl q hq)
  | some q =>
    have hq := List.mem_filter.mp (List.mem_of_getLast? hl)
    constructor
    · intro ⟨_, q', hq', hw⟩
      cases hq'
      exact ⟨⟨q, hq.1, hq.2⟩, by simp [hw]⟩
    · intro ⟨_, hw⟩
      exact ⟨hr, q, rfl, by simpa using hw⟩

theorem check_isPatched (hr : E.Reads) : ((checkIfPatchedFunctionsAreStillInMemory E s).objects p).isPatched =
    ((decided s).objects p).isPatched := by
  rw [Bool.eq_iff_iff]
  unfold checkIfPatchedFunctionsAreStillInMemory decided
  rw [checkLoop_isPatched, jumpGone_iff hr, List.mem_reverse]
  by_cases hd : p ∈ s.gPatchedFunctions ∧ jumpInPlace s (s.objects p).realPhysicalFunctionAddress = false
  · simp only [hd]
    constructor
    · intro ⟨hp, h⟩
      have := (h trivial).resolve_left (by simp)
      exact absurd ⟨⟨p, hd.1, patchedAt_iff.mpr ⟨hp, rfl⟩⟩, trivial⟩ this.2
    · intro h
      cases h
  · simp only [if_neg hd]
    constructor
    · intro h
      exact h.1
    · intro hp
      refine ⟨hp, fun hm => .inr ⟨by simp, fun h => hd ⟨hm, h.2⟩⟩⟩

theorem check_eq_decided (hr : E.Reads) : checkIfPatchedFunctionsAreStillInMemory E s = decided s := by
  obtain ⟨o, e, ho⟩ := checkLoop_cleared E s.gPatchedFunctions.reverse s {}
  have he : checkIfPatchedFunctionsAreStillInMemory E s = { s with objects := o } := e
  rw [he]
  unfold decided
  congr 1
  funext p
  have hflag : (o p).isPatched = ((decided s).objects p).isPatched := by
    rw [← check_isPatched hr, he]
  have hself : ∀ r : PatchedFunctionData, (o p = r ∨ o p = { r with isPatched := false }) →
      o p = { r with isPatched := (o p).isPatched } := by
    intro r h
    rcases h with h | h
    · rw [h]
    · rw [h]
  rw [hself _ (ho p), hflag]
  unfold decided
  simp only
  split
  · rfl
  · rfl

theorem decided_field {α : Type} (f : PatchedFunctionData → α) (hf : ∀ r, f { r with isPatched := false } = f r)
    (p : Word) :
    f ((decided s).objects p) = f (s.objects p) := by
  unfold decided
  simp only
  split
  · exact hf _
  · rfl

theorem jumpInPlace_decided : jumpInPlace (decided s) a = jumpInPlace s a := by
  by_cases h : jumpInPlace s a = true
  · have hat : ∀ p ∈ s.gPatchedFunctions, patchedAt (decided s) a p = patchedAt s a p := by
      intro p hp
      unfold patchedAt decided
      simp only
      split
      · rename_i hd
        by_cases ha : (s.objects p).realPhysicalFunctionAddress = a
        · rw [ha, h] at hd
          cases hd.2
        · simp [ha]
      · rfl
    have hlast : ((decided s).gPatchedFunctions.filter (patchedAt (decided s) a)).getLast? =
        (s.gPatchedFunctions.filter (patchedAt s a)).getLast? := congrArg _ (List.filter_congr hat)
    have hword : ∀ p, ((decided s).objects p).replaceWithInstruction = (s.objects p).replaceWithInstruction :=
      decided_field PatchedFunctionData.replaceWithInstruction fun _ => rfl
    unfold jumpInPlace
    rw [hlast]
    simp only [hword]
    rfl
  · have hnone : ∀ p ∈ s.gPatchedFunctions, ¬ patchedAt (decided s) a p = true := by
      intro p hp hat
      rw [patchedAt_iff] at hat
      unfold decided at hat
      simp only at hat
      split at hat
      · cases hat.1
      · rename_i hd
        rw [Bool.not_eq_true] at h
        exact hd ⟨hp, by rw [hat.2, h]⟩
    have hnil : (decided s).gPatchedFunctions.filter (patchedAt (decided s) a) = [] := List.filter_eq_nil_iff.mpr hnone
    rw [Bool.not_eq_true] at h
    unfold jumpInPlace at h ⊢
    rw [hnil, h]
    rfl

theorem decided_decided : decided (decided s) = decided s := by
  have hphys : ∀ p, ((decided s).objects p).realPhysicalFunctionAddress = (s.objects p).realPhysicalFunctionAddress :=
    decided_field PatchedFunctionData.realPhysicalFunctionAddress fun _ => rfl
  show State.mk .. = _
  conv => rhs; unfold decided
  congr 1
  funext p
  rw [hphys, jumpInPlace_decided]
  show (if p ∈ s.gPatchedFunctions ∧ _ then _ else _) = _
  split
  · rename_i hd
    unfold decided
    simp only [if_pos hd]
  · rename_i hd
    unfold decided
    simp only [if_neg hd]

/-- **Patches still in memory.** The check decides every address for itself, by the last record that is
patched there, and a second check changes nothing. -/
theorem checkIfPatchedFunctionsAreStillInMemory_decides (E : Env) (s : State) (hr : E.Reads) :
    checkIfPatchedFunctionsAreStillInMemory E s = decided s ∧
    checkIfPatchedFunctionsAreStillInMemory E (checkIfPatchedFunctionsAreStillInMemory E s) =
      checkIfPatchedFunctionsAreStillInMemory E s := by
  constructor
  · exact check_eq_decided hr
  · rw [check_eq_decided hr, check_eq_decided hr, decided_decided]

end

def overwritten : State :=
  let s := ran (plainState 0x7c0802a6) [(plainEnv 0x10 false, plainPatch .other 0x02000400 0x1000 .all),
    (plainEnv 0x20 false, plainPatch .other 0x02000400 0x2000 .all)]
  { s with mem := Function.update s.mem 0x02000400 0x60000000 }

theorem checkIfPatchedFunctionsAreStillInMemory_decides_overwritten :
    checkIfPatchedFunctionsAreStillInMemory (plainEnv 0 false) overwritten = decided overwritten ∧
    checkIfPatchedFunctionsAreStillInMemory (plainEnv 0 false)
        (checkIfPatchedFunctionsAreStillInMemory (plainEnv 0 false) overwritten) =
      checkIfPatchedFunctionsAreStillInMemory (plainEnv 0 false) overwritten :=
  checkIfPatchedFunctionsAreStillInMemory_decides (plainEnv 0 false) overwritten (plainEnv_reads 0 false)

end FunctionPatcher
