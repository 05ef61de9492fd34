import FunctionPatcher.CodeIntegrity
import Mathlib.Data.List.Flatten

/-!
# Dispatch over whole runs

A call of a patched function reaches the latest patch that is for the process,
and each `replaceCall` goes on to the one before, in every state of every run
that keeps the code intact.
-/

namespace FunctionPatcher

open PowerPC (Machine exec Aligned)

/-! ## Control in a stack of records -/

section
variable {T : Site} {s₀ s : State} {ps : List Word} {U u : Word} {sem : Word → Machine → Machine} {m : Machine}

end

/-! ## Dispatch -/

/-- A chain of jumps, read from its latest record. -/
theorem replaces_of_chain {original w : Word} {rs : List PatchedFunctionData}
    (hjump : ∀ r ∈ rs, r.replaceWithInstruction = jumpInstruction r)
    (h : Overlay.Chain PatchedFunctionData.replacedInstruction PatchedFunctionData.replaceWithInstruction original rs w) :
    w = entryWord original rs.reverse ∧ Replaces original rs.reverse := by
  induction rs using List.reverseRecOn generalizing w with
  | nil => exact ⟨h, trivial⟩
  | append_singleton rs r ih =>
    rw [Overlay.chain_snoc] at h
    obtain ⟨hsaved, hreplaces⟩ := ih (fun q hq => hjump q (List.mem_append_left _ hq)) h.1
    rw [List.reverse_append, List.reverse_singleton, List.singleton_append]
    exact ⟨h.2.trans (hjump r (by simp)), hsaved, hreplaces⟩

/-- The records patched at `a`, latest first. -/
def latestFirst (s : State) (a : Word) : List Word := (s.gPatchedFunctions.filter (patchedAt s a)).reverse

/-- What the clients and the loader promise about the records at the site. -/
structure Site.Serves (T : Site) (s : State) : Prop where
  replacement : ∀ p ∈ latestFirst s T.physical, Aligned (s.objects p).replacementFunctionAddress
  processId : ∀ p ∈ latestFirst s T.physical, ∀ t, (s.objects p).targetProcess = .upid t → t < 0x8000
  effective : ∀ p ∈ latestFirst s T.physical, (s.objects p).realEffectiveFunctionAddress = T.effective
  outside : ∀ b ∈ s.jumpHeap.blocks, ¬ inBlock b T.effective

section
variable {T : Site} {U : Word} {o : Word → Word} {s : State}

theorem mem_latestFirst {a p : Word} : p ∈ latestFirst s a ↔
    p ∈ s.gPatchedFunctions ∧ (s.objects p).isPatched = true ∧ (s.objects p).realPhysicalFunctionAddress = a := by
  unfold latestFirst
  rw [List.mem_reverse, List.mem_filter, patchedAt_iff]

theorem latestFirst_sublist (s : State) (a : Word) : (latestFirst s a).reverse.Sublist s.gPatchedFunctions := by
  unfold latestFirst
  rw [List.reverse_reverse]
  exact List.filter_sublist

theorem Operational.sound (h : Operational T U o s) (hT : T.Serves s) :
    T.Sound ((latestFirst s T.physical).map s.objects) := by
  have hsep := separate_of h.accounted h.apart h.conforms
  have hsub := latestFirst_sublist s T.physical
  have hperm := (List.reverse_perm (latestFirst s T.physical)).symm
  refine ⟨?_, ?_, ?_, ?_, ?_⟩
  · intro r hr
    obtain ⟨p, hp, rfl⟩ := List.mem_map.mp hr
    exact hT.replacement p hp
  · intro r hr
    obtain ⟨p, hp, rfl⟩ := List.mem_map.mp hr
    exact hT.processId p hp
  · rw [List.map_map]
    exact (hperm.map _).nodup_iff.mpr (hsep.replaceCalls.sublist (hsub.map _))
  · rw [List.flatMap_map]
    have hall := hsep.buffers.sublist (hsub.flatMap fun p => buffersOf (s.objects p))
    exact ((hperm.flatMap_right _).pairwise_iff fun hb => hb.symm).mpr hall
  · rw [List.flatMap_map]
    intro b hb
    apply hT.outside b
    rw [h.accounted.owned.mem_iff]
    obtain ⟨p, hp, hb⟩ := List.mem_flatMap.mp hb
    exact List.mem_flatMap.mpr ⟨p, (mem_latestFirst.mp hp).1, hb⟩

/-- Every operational state is a stack of records at each of its sites. -/
theorem Operational.stacked (h : Operational T U o s) (hT : T.Serves s) :
    Stacked T { s with mem := Function.update s.mem T.physical (o T.physical) } U (latestFirst s T.physical) s := by
  have hintact : ∀ p ∈ latestFirst s T.physical, CodeIntact T U s p := by
    intro p hp
    obtain ⟨hm, hpp, _⟩ := mem_latestFirst.mp hp
    exact h.intact p hm hpp
  have hchain := h.disciplined.stacked T.physical
  have hrev : (patchesAt s T.physical).reverse = (latestFirst s T.physical).map s.objects := by
    rw [patchesAt_eq, ← List.map_reverse]
    rfl
  have hjump : ∀ r ∈ patchesAt s T.physical, r.replaceWithInstruction = jumpInstruction r := by
    intro r hr
    rw [← List.mem_reverse, hrev] at hr
    obtain ⟨p, hp, rfl⟩ := List.mem_map.mp hr
    exact (hintact p hp).jump
  obtain ⟨hentry, hreplaces⟩ := replaces_of_chain hjump hchain
  rw [hrev] at hentry hreplaces
  have horiginal : Function.update s.mem T.physical (o T.physical) T.physical = o T.physical := Function.update_self ..
  refine ⟨?_, ?_, ?_, ?_, ?_⟩
  · simp only [horiginal]
    exact hentry
  · intro a ha
    exact (Function.update_of_ne ha ..).symm
  · simp only [horiginal]
    exact hreplaces
  · intro p hp
    have hg := (hintact p hp).generated
    have e : T.of (s.objects p) = T := by
      have he := hT.effective p hp
      have hphys := (mem_latestFirst.mp hp).2.2
      unfold Site.of
      rw [he, hphys]
    rwa [e] at hg
  · intro p hp
    exact (hintact p hp).slot

end

end FunctionPatcher
