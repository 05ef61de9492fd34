import FunctionPatcher.Overlay
import FunctionPatcher.Removal

/-!
# The stack of patches at each address

The patched records of one physical address overlay the word there
(`Overlay.Stacked`). What keeps them stacked in list order: a record is applied
only while no record behind it is patched at the address, and a record is undone
only as the last one there. `FPRemoveFunctionPatch` undoes in that order.
-/

namespace FunctionPatcher

open Overlay

def State.records (s : State) : List PatchedFunctionData := s.gPatchedFunctions.map s.objects

def patchesAt (s : State) (a : Word) : List PatchedFunctionData :=
  layersAt PatchedFunctionData.realPhysicalFunctionAddress PatchedFunctionData.isPatched s.records a

/-- The word at each address is the jump of the last patched record there, each of these
records saved the jump of the one before, and the first saved the original word. -/
def StackDiscipline (original : Word → Word) (s : State) : Prop :=
  ∀ a, s.mem a = (((patchesAt s a).getLast?.map PatchedFunctionData.replaceWithInstruction).getD (original a)) ∧
    (patchesAt s a).IsChain (fun r r' => r'.replacedInstruction = r.replaceWithInstruction) ∧
    ∀ r ∈ (patchesAt s a).head?, r.replacedInstruction = original a

/-- The invariant behind it: distinct handles, stacked records, and nothing in a patched record
that `RestoreFunction` would refuse. -/
structure Disciplined (original : Word → Word) (s : State) : Prop where
  nodup : s.gPatchedFunctions.Nodup
  stacked : Stacked PatchedFunctionData.replacedInstruction PatchedFunctionData.replaceWithInstruction
    PatchedFunctionData.realPhysicalFunctionAddress PatchedFunctionData.isPatched original s.records s.mem
  complete : ∀ p ∈ s.gPatchedFunctions, (s.objects p).isPatched = true →
    (s.objects p).replacedInstruction ≠ 0 ∧ (s.objects p).realEffectiveFunctionAddress ≠ 0 ∧
      (s.objects p).replaceWithInstruction ≠ 0

theorem Disciplined.stackDiscipline {o : Word → Word} {s : State} (h : Disciplined o s) : StackDiscipline o s :=
  fun a => (chain_iff _ _ _ _).mp (h.stacked a)

theorem disciplined_empty {s : State} (h : s.gPatchedFunctions = []) : Disciplined s.mem s where
  nodup := by rw [h]; exact List.nodup_nil
  stacked := by unfold State.records; rw [h]; exact stacked_nil
  complete := by rw [h]; simp

/-! ## Jump words -/

theorem branchTo_ne_zero (a : Word) : branchTo a ≠ 0 := by
  intro h
  have := congrArg (fun w : Word => w.getLsbD 1) h
  simp [branchTo] at this

theorem jumpInstruction_ne_zero (r : PatchedFunctionData) : jumpInstruction r ≠ 0 := by
  unfold jumpInstruction; split <;> exact branchTo_ne_zero _

/-! ## One record changed -/

section
variable {s : State} {p : Word} {pre post : List Word}

theorem records_split (s' : State) (hl : s.gPatchedFunctions = pre ++ p :: post) (hn : s.gPatchedFunctions.Nodup)
    (hl' : s'.gPatchedFunctions = s.gPatchedFunctions) (ho : ∀ q, q ≠ p → s'.objects q = s.objects q) :
    s'.records = pre.map s.objects ++ s'.objects p :: post.map s.objects := by
  rw [hl] at hn hl'
  obtain ⟨hpre, hpost⟩ := nodup_split hn
  unfold State.records
  rw [hl', List.map_append, List.map_cons]
  congr 1
  · exact List.map_congr_left fun q hq => ho q fun e => hpre (e ▸ hq)
  · congr 1
    exact List.map_congr_left fun q hq => ho q fun e => hpost (e ▸ hq)

end

theorem Disciplined.congr {o : Word → Word} {s s' : State} (h : Disciplined o s)
    (hl : s'.gPatchedFunctions = s.gPatchedFunctions) (hm : s'.mem = s.mem)
    (ho : ∀ q ∈ s.gPatchedFunctions, s'.objects q = s.objects q) : Disciplined o s' where
  nodup := hl ▸ h.nodup
  stacked := by
    have : s'.records = s.records := by
      unfold State.records; rw [hl]; exact List.map_congr_left ho
    rw [this, hm]; exact h.stacked
  complete := fun p hp => by rw [hl] at hp; rw [ho p hp]; exact h.complete p hp

theorem Disciplined.drop {o : Word → Word} {s : State} {p : Word} {pre post : List Word} (h : Disciplined o s)
    (hl : s.gPatchedFunctions = pre ++ p :: post) (hp : (s.objects p).isPatched = false) :
    Disciplined o { s with gPatchedFunctions := pre ++ post } where
  nodup := by
    have := h.nodup
    rw [hl] at this
    exact this.sublist (List.Sublist.append_left (List.sublist_cons_self p post) pre)
  stacked := by
    have := h.stacked
    unfold State.records at this
    rw [hl, List.map_append, List.map_cons] at this
    show Stacked _ _ _ _ o ((pre ++ post).map s.objects) s.mem
    rw [List.map_append]
    exact (stacked_dead hp).mp this
  complete := fun q hq => h.complete q (by rw [hl]; simp at hq ⊢; tauto)

theorem Disciplined.append {o : Word → Word} {s : State} {p : Word} (h : Disciplined o s)
    (hnew : p ∉ s.gPatchedFunctions) (hp : (s.objects p).isPatched = false) :
    Disciplined o (publishPatch s p) where
  nodup := by
    show (s.gPatchedFunctions ++ [p]).Nodup
    rw [List.nodup_append]
    exact ⟨h.nodup, List.nodup_singleton _, fun a ha b hb hab => by
      rw [List.mem_singleton] at hb; subst hb; subst hab; exact hnew ha⟩
  stacked := by
    show Stacked _ _ _ _ o ((s.gPatchedFunctions ++ [p]).map s.objects) s.mem
    rw [List.map_append]
    exact (stacked_snoc_dead hp).mpr h.stacked
  complete := fun q hq hqp => by
    rcases List.mem_append.mp hq with hq | hq
    · exact h.complete q hq hqp
    · rw [List.mem_singleton] at hq; subst hq
      have hqp : (s.objects q).isPatched = true := hqp
      rw [hp] at hqp; cases hqp

def NonePatchedBehind (s : State) (p a : Word) : Prop :=
  ∀ pre post, s.gPatchedFunctions = pre ++ p :: post →
    ∀ q ∈ post, (s.objects q).isPatched = true → (s.objects q).realPhysicalFunctionAddress ≠ a

/-- **Applying a record as the last one of its address** pushes it on the stack there. -/
theorem Disciplined.apply {o : Word → Word} {E : Env} {s : State} {p : Word} {A : Application}
    (h : Disciplined o s) (hm : p ∈ s.gPatchedFunctions) (hp : (s.objects p).isPatched = false)
    (hw : A.written = jumpInstruction (s.objects p)) (h0 : o A.physical ≠ 0) (he : A.effective ≠ 0)
    (hlast : NonePatchedBehind s p A.physical) : Disciplined o (A.result E s p) := by
  obtain ⟨pre, post, hl⟩ := List.append_of_mem hm
  have ho : ∀ q, q ≠ p → (A.result E s p).objects q = s.objects q := fun q hq => Function.update_of_ne hq ..
  have hop : (A.result E s p).objects p = A.record s p := A.result_objects_self E s p
  refine ⟨h.nodup, ?_, fun q hq hqp => ?_⟩
  · rw [records_split (A.result E s p) hl h.nodup rfl ho, hop]
    have hs := h.stacked
    unfold State.records at hs
    rw [hl, List.map_append, List.map_cons] at hs
    show Stacked _ _ _ _ o _ (Function.update s.mem A.physical A.written)
    rw [hw]
    refine Stacked.push hs hp rfl rfl fun r hr hrp => ?_
    · obtain ⟨q, hq, rfl⟩ := List.mem_map.mp hr
      exact hlast pre post hl q hq hrp
  · by_cases hqp' : q = p
    · subst hqp'
      rw [hop]
      refine ⟨?_, he, jumpInstruction_ne_zero _⟩
      -- the saved word is the original one or a jump word
      show s.mem A.physical ≠ 0
      rw [chain_top _ _ (h.stacked A.physical), top]
      cases hlast : (layersAt PatchedFunctionData.realPhysicalFunctionAddress PatchedFunctionData.isPatched
          s.records A.physical).getLast? with
      | none => exact h0
      | some r =>
        obtain ⟨hr, hrp, _⟩ := mem_layersAt.mp (List.mem_of_getLast? hlast)
        obtain ⟨q, hq, rfl⟩ := List.mem_map.mp hr
        exact (h.complete q hq hrp).2.2
    · rw [ho q hqp'] at hqp ⊢
      exact h.complete q hq hqp

/-! ## Undoing -/

/-- **Undoing the last record of an address** succeeds and pops the stack there. -/
theorem Disciplined.restore {o : Word → Word} {E : Env} {s s' : State} {p : Word} {b : Bool}
    (h : Disciplined o s) (hm : p ∈ s.gPatchedFunctions) (hp : (s.objects p).isPatched = true)
    (hlast : NonePatchedBehind s p (s.objects p).realPhysicalFunctionAddress) (hr : E.Reads)
    (ht : targetAddrPhys E (s.objects p) = (s.objects p).realPhysicalFunctionAddress)
    (hrun : restoreFunction E s p = .ok (b, s')) : b = true ∧ Disciplined o s' := by
  obtain ⟨pre, post, hl⟩ := List.append_of_mem hm
  have hs := h.stacked
  unfold State.records at hs
  rw [hl, List.map_append, List.map_cons] at hs
  have hpost : ∀ r ∈ post.map s.objects, r.isPatched = true →
      r.realPhysicalFunctionAddress ≠ (s.objects p).realPhysicalFunctionAddress := fun r hr hrp => by
    obtain ⟨q, hq, rfl⟩ := List.mem_map.mp hr
    exact hlast pre post hl q hq hrp
  obtain ⟨hsaved, heff, _⟩ := h.complete p hm hp
  have hrestorable : Restorable E s p := ⟨hp, hsaved, heff, hr, hs.shown hp hpost⟩
  rcases restoreFunction_ok hrun with ⟨hp', _⟩ | ⟨_, hnot, _⟩ | ⟨_, hb, rfl⟩
  · rw [hp] at hp'; cases hp'
  · exact absurd hrestorable hnot
  refine ⟨hb, h.nodup, ?_, fun q hq hqp => ?_⟩
  · have ho : ∀ q, q ≠ p → (restored E s p).objects q = s.objects q := fun q hq =>
      setObject_objects_ne _ _ _ hq
    have hop : (restored E s p).objects p = { s.objects p with isPatched := false } :=
      setObject_objects_self ..
    rw [records_split (restored E s p) hl h.nodup rfl ho, hop]
    show Stacked _ _ _ _ o _ (Function.update s.mem (targetAddrPhys E (s.objects p)) _)
    rw [ht]
    exact hs.pop hp hpost rfl
  · by_cases hqp' : q = p
    · subst hqp'
      have : (restored E s q).objects q = { s.objects q with isPatched := false } := setObject_objects_self ..
      rw [this] at hqp; cases hqp
    · have : (restored E s p).objects q = s.objects q := setObject_objects_ne _ _ _ hqp'
      rw [this] at hqp ⊢
      exact h.complete q hq hqp

theorem restoresSucceed_append {E : Env} {s s₁ : State} {ps qs : List Word} (hs : restoresSucceed E s ps = true)
    (h : forEach (restoreFunction E) s ps = .ok s₁) (hq : restoresSucceed E s₁ qs = true) :
    restoresSucceed E s (ps ++ qs) = true := by
  induction ps generalizing s with
  | nil =>
    cases h
    exact hq
  | cons p ps ih =>
    obtain ⟨b, s₂, hf, h⟩ := forEach_cons h
    rw [restoresSucceed, hf] at hs
    cases b with
    | false => cases hs
    | true =>
      rw [List.cons_append, restoresSucceed, hf]
      exact ih hs h

/-- The restores of a removal meet every record as the last one of its address. The induction
is on the part of the list they come from, its last record first. -/
theorem Disciplined.unwind {o : Word → Word} {E : Env} {h : Word} (hr : E.Reads) {s : State} (hd : Disciplined o s)
    {post pre : List Word} {s' : State} (hl : s.gPatchedFunctions = pre ++ post)
    (ht : ∀ q ∈ sameAddress s h post, (s.objects q).isPatched = true →
      targetAddrPhys E (s.objects q) = (s.objects q).realPhysicalFunctionAddress)
    (hrun : forEach (restoreFunction E) s (sameAddress s h post).reverse = .ok s') :
    restoresSucceed E s (sameAddress s h post).reverse = true ∧ Disciplined o s' := by
  induction post generalizing pre s' with
  | nil =>
    cases hrun
    exact ⟨rfl, hd⟩
  | cons p post ih =>
    have hl' : s.gPatchedFunctions = (pre ++ [p]) ++ post := by rw [hl]; simp
    have hn := hd.nodup
    rw [hl] at hn
    obtain ⟨hpre, hpost⟩ := nodup_split hn
    by_cases ha : (s.objects p).realPhysicalFunctionAddress = (s.objects h).realPhysicalFunctionAddress
    · have hsplit : sameAddress s h (p :: post) = p :: sameAddress s h post := by simp [sameAddress, ha]
      rw [hsplit, List.reverse_cons] at hrun ⊢
      rw [hsplit] at ht
      obtain ⟨s₁, h₁, h₂⟩ := forEach_append hrun
      obtain ⟨hsucc, hd₁⟩ := ih hl' (fun q hq => ht q (List.mem_cons_of_mem _ hq)) h₁
      obtain ⟨m, rfl⟩ := restores_effect hsucc h₁
      obtain ⟨b, s₂, hf, h₂⟩ := forEach_cons h₂
      cases h₂
      have hnot : p ∉ (sameAddress s h post).reverse := fun hm =>
        hpost (List.mem_of_mem_filter (List.mem_reverse.mp hm))
      have hpm : p ∈ s.gPatchedFunctions := by rw [hl]; simp
      cases hp : (s.objects p).isPatched with
      | false =>
        rw [restoreFunction_unpatched (by simp only [if_neg hnot]; exact hp)] at hf
        cases hf
        refine ⟨restoresSucceed_append hsucc h₁ ?_, hd₁⟩
        rw [restoresSucceed, restoreFunction_unpatched (by simp only [if_neg hnot]; exact hp)]; rfl
      | true =>
        -- the records behind `p` at this address have just been restored
        have hlast : NonePatchedBehind { s with
            mem := m
            objects := fun q => if q ∈ (sameAddress s h post).reverse then { s.objects q with isPatched := false }
              else s.objects q } p (s.objects p).realPhysicalFunctionAddress := by
          intro pre' post' hl'' q hq hqp
          obtain ⟨rfl, rfl⟩ := nodup_split_unique hn (hl.symm.trans hl'')
          by_cases hqa : q ∈ sameAddress s h post'
          · simp [hqa] at hqp
          · simp only [List.mem_reverse, if_neg hqa] at hqp ⊢
            intro e
            exact hqa (mem_sameAddress.mpr ⟨hq, e.trans ha⟩)
        obtain ⟨rfl, hd₂⟩ := hd₁.restore hpm (by simp only [if_neg hnot]; exact hp)
          (by simp only [if_neg hnot]; exact hlast) hr
          (by simp only [if_neg hnot]; exact ht p (List.mem_cons_self ..) hp) hf
        refine ⟨restoresSucceed_append hsucc h₁ ?_, hd₂⟩
        rw [restoresSucceed, hf]; rfl
    · have hsplit : sameAddress s h (p :: post) = sameAddress s h post := by simp [sameAddress, ha]
      rw [hsplit] at ht hrun ⊢
      exact ih hl' ht hrun

end FunctionPatcher
