import FunctionPatcher.CodeIntegrity
import FunctionPatcher.FatalErrors

/-!
# Recovering from any state

The flags of the records say which functions are patched, memory says what they
begin with. The check at an application's start and after an unload makes the
two agree, whatever the state was, and the events after it keep them so.
-/

namespace FunctionPatcher

/-- Where a listed record is patched, the function begins with the jump of a patched record. -/
def Shown (s : State) : Prop :=
  ∀ p ∈ s.gPatchedFunctions, (s.objects p).isPatched = true →
    ∃ q ∈ s.gPatchedFunctions, (s.objects q).isPatched = true ∧
      (s.objects q).realPhysicalFunctionAddress = (s.objects p).realPhysicalFunctionAddress ∧
      s.mem (s.objects p).realPhysicalFunctionAddress = (s.objects q).replaceWithInstruction

section
variable {E : Env} {s s' s₁ : State} {p h : Word} {b : Bool}

/-! ## The check -/

theorem Shown.congr (hs : Shown s) (hl : s'.gPatchedFunctions = s.gPatchedFunctions)
    (ho : ∀ q ∈ s.gPatchedFunctions, s'.objects q = s.objects q)
    (hm : ∀ p ∈ s.gPatchedFunctions, (s.objects p).isPatched = true →
      s'.mem (s.objects p).realPhysicalFunctionAddress = s.mem (s.objects p).realPhysicalFunctionAddress) : Shown s' := by
  intro p hp hpp
  rw [hl] at hp
  rw [ho p hp] at hpp ⊢
  obtain ⟨q, hq, h⟩ := hs p hp hpp
  refine ⟨q, hl ▸ hq, ?_⟩
  rw [ho q hq, hm p hp hpp]
  exact h

/-- The last write decides for its address, and leaves the other addresses alone. -/
theorem Shown.apply (hs : Shown s) (hun : (s.objects p).isPatched = false)
    (hl : ∀ q, q ∈ s'.gPatchedFunctions ↔ q ∈ s.gPatchedFunctions ∨ q = p) (hp : (s'.objects p).isPatched = true)
    (hm : s'.mem = Function.update s.mem (s'.objects p).realPhysicalFunctionAddress (s'.objects p).replaceWithInstruction)
    (ho : ∀ q, q ≠ p → s'.objects q = s.objects q) : Shown s' := by
  intro x hx hxp
  by_cases ha : (s'.objects x).realPhysicalFunctionAddress = (s'.objects p).realPhysicalFunctionAddress
  · refine ⟨p, (hl p).mpr (.inr rfl), hp, ha.symm, ?_⟩
    rw [hm, ha, Function.update_self]
  · have hne : x ≠ p := fun e => ha (e ▸ rfl)
    have hx := ((hl x).mp hx).resolve_right hne
    rw [ho x hne] at hxp ha ⊢
    obtain ⟨q, hq, hqp, haq, hw⟩ := hs x hx hxp
    have hqne : q ≠ p := by
      rintro rfl
      rw [hun] at hqp
      cases hqp
    refine ⟨q, (hl q).mpr (.inl hq), ?_⟩
    rw [ho q hqne, hm, Function.update_of_ne ha]
    exact ⟨hqp, haq, hw⟩

/-- The record is not patched, or it is the only one that is at its address, which still translates. -/
def RemovesAlone (E : Env) (s : State) (h : Word) : Prop :=
  (s.objects h).isPatched = true → targetAddrPhys E (s.objects h) = (s.objects h).realPhysicalFunctionAddress ∧
    ∀ q ∈ s.gPatchedFunctions, q ≠ h → (s.objects q).isPatched = true →
      (s.objects q).realPhysicalFunctionAddress ≠ (s.objects h).realPhysicalFunctionAddress

theorem Shown.drop {pre post : List Word} (hs : Shown s) (hn : s.gPatchedFunctions.Nodup)
    (hl : s.gPatchedFunctions = pre ++ h :: post) (hl' : s'.gPatchedFunctions = pre ++ post)
    (ho : ∀ q, q ≠ h → s'.objects q = s.objects q) (halone : RemovesAlone E s h)
    (hm : ∀ a, ((s.objects h).isPatched = true → a ≠ (s.objects h).realPhysicalFunctionAddress) → s'.mem a = s.mem a) :
    Shown s' := by
  rw [hl] at hn
  have hne : ∀ q, q ∈ s'.gPatchedFunctions ↔ q ∈ s.gPatchedFunctions ∧ q ≠ h := by
    intro q
    rw [hl', hl, List.mem_append, List.mem_append, List.mem_cons]
    constructor
    · intro hq
      refine ⟨hq.imp_right .inr, ?_⟩
      rintro rfl
      exact hq.elim (nodup_split hn).1 (nodup_split hn).2
    · rintro ⟨hq | rfl | hq, hne⟩
      · exact .inl hq
      · exact absurd rfl hne
      · exact .inr hq
  intro x hx hxp
  obtain ⟨hx, hxh⟩ := (hne x).mp hx
  rw [ho x hxh] at hxp ⊢
  have hapart : (s.objects h).isPatched = true →
      (s.objects x).realPhysicalFunctionAddress ≠ (s.objects h).realPhysicalFunctionAddress :=
    fun hp => (halone hp).2 x hx hxh hxp
  obtain ⟨q, hq, hqp, ha, hw⟩ := hs x hx hxp
  have hqh : q ≠ h := by
    rintro rfl
    exact hapart hqp ha.symm
  refine ⟨q, (hne q).mpr ⟨hq, hqh⟩, ?_⟩
  rw [ho q hqh, hm _ hapart]
  exact ⟨hqp, ha, hw⟩

end

section
variable {E : Env} {s s' : State} {q : Word}

end

end FunctionPatcher
