import FunctionPatcher.Undoable

/-!
# What a removal leaves alone

The loop of `FPRemoveFunctionPatch` collects the records behind the removed one
at its address. Restoring them and the removed one writes one word and clears
flags of these records only.
-/

namespace FunctionPatcher

/-! ## Restoring at one address -/

/-- `s'` is `s` but for the word at `a` and flags of `ps`. -/
def RestoredAt (a : Word) (ps : List Word) (s s' : State) : Prop :=
  ∃ m o, s' = { s with mem := m, objects := o } ∧ (∀ x, x ≠ a → m x = s.mem x) ∧
    ∀ q, o q = s.objects q ∨ (q ∈ ps ∧ o q = { s.objects q with isPatched := false })

section
variable {E : Env} {s t t' : State} {a p : Word} {ps : List Word} {b : Bool}

theorem RestoredAt.refl (a : Word) (ps : List Word) (s : State) : RestoredAt a ps s s :=
  ⟨s.mem, s.objects, rfl, fun _ _ => rfl, fun _ => .inl rfl⟩

theorem RestoredAt.step (ha : ∀ q ∈ ps, (s.objects q).isPatched = true → targetAddrPhys E (s.objects q) = a)
    (h : RestoredAt a ps s t) (hp : p ∈ ps) (hrun : restoreFunction E t p = .ok (b, t')) : RestoredAt a ps s t' := by
  rcases restoreFunction_ok hrun with ⟨_, _, rfl⟩ | ⟨_, _, _, rfl⟩ | ⟨hr, _, rfl⟩
  · exact h
  · exact h
  obtain ⟨m, o, rfl, hm, ho⟩ := h
  -- what is patched has not been touched yet
  have hobj : o p = s.objects p := by
    rcases ho p with e | ⟨_, e⟩
    · exact e
    · have hpatched : (o p).isPatched = true := hr.patched
      rw [e] at hpatched
      cases hpatched
  have htarget : targetAddrPhys E (o p) = a := by
    have hpatched : (o p).isPatched = true := hr.patched
    rw [hobj] at hpatched ⊢
    exact ha p hp hpatched
  refine ⟨Function.update m (targetAddrPhys E (o p)) (o p).replacedInstruction,
    Function.update o p { o p with isPatched := false }, rfl, ?_, ?_⟩
  · intro x hx
    rw [htarget, Function.update_of_ne hx, hm x hx]
  · intro q
    by_cases hq : q = p
    · subst hq
      right
      rw [Function.update_self, hobj]
      exact ⟨hp, rfl⟩
    · rw [Function.update_of_ne hq]
      exact ho q

theorem RestoredAt.run (ha : ∀ q ∈ ps, (s.objects q).isPatched = true → targetAddrPhys E (s.objects q) = a)
    (hrun : forEach (restoreFunction E) s ps = .ok t') : RestoredAt a ps s t' :=
  forEach_induct (RestoredAt a ps s) (fun _ _ _ _ hq h hrun => h.step ha hq hrun) (.refl a ps s) hrun

end

/-! ## The list -/

theorem filter_ne_of_not_mem {h : Word} {ps : List Word} (hm : h ∉ ps) : ps.filter (fun q => q ≠ h) = ps := by
  apply List.filter_eq_self.mpr
  intro q hq
  simp only [ne_eq, decide_eq_true_eq]
  intro e
  exact hm (e ▸ hq)

theorem filter_ne_split {h : Word} {pre post : List Word} (hn : (pre ++ h :: post).Nodup) :
    (pre ++ h :: post).filter (fun q => q ≠ h) = pre ++ post := by
  obtain ⟨hpre, hpost⟩ := nodup_split hn
  rw [List.filter_append, List.filter_cons_of_neg (by simp), filter_ne_of_not_mem hpre, filter_ne_of_not_mem hpost]

/-! ## Removal -/

/-- `RestoreFunction` returns true for `h` once the records above it are restored. -/
def RestoreSucceeds (E : Env) (s : State) (h : Word) : Prop :=
  ∀ s₁, forEach (restoreFunction E) s (removeScan s h {} s.gPatchedFunctions).toBeTempRestored.reverse = .ok s₁ →
    ∃ s₂, restoreFunction E s₁ h = .ok (true, s₂)

/-- Everything `FPRemoveFunctionPatch` leaves alone. -/
structure RemovalFramed (s s' : State) (h : Word) : Prop where
  list : s'.gPatchedFunctions = s.gPatchedFunctions.filter fun q => q ≠ h
  elsewhere : ∀ q, q ≠ h →
    (s.objects q).realPhysicalFunctionAddress ≠ (s.objects h).realPhysicalFunctionAddress → s'.objects q = s.objects q
  before : ∀ pre post, s.gPatchedFunctions = pre ++ h :: post → ∀ q ∈ pre, s'.objects q = s.objects q
  mem : ∀ a, a ≠ (s.objects h).realPhysicalFunctionAddress → s'.mem a = s.mem a
  words : s'.replaceCalls = s.replaceCalls ∧ s'.jumpHeap.words = s.jumpHeap.words
  unpatched : h ∉ s.gPatchedFunctions ∨ (s.objects h).isPatched = false →
    s'.mem = s.mem ∧ ∀ q, q ≠ h → s'.objects q = s.objects q

theorem BuffersDiffer.replaceCalls {s s' : State} {p : Word} (h : BuffersDiffer s s' p) :
    s'.replaceCalls = s.replaceCalls := by
  obtain ⟨H, jd, jo, n, _, rfl⟩ := h
  rfl

theorem removalFramed_of_eq {s s' : State} {h : Word} (hn : s.gPatchedFunctions.Nodup)
    (hl : s'.gPatchedFunctions = s.gPatchedFunctions.filter fun q => q ≠ h) (hm : s'.mem = s.mem)
    (ho : ∀ q, q ≠ h → s'.objects q = s.objects q) (hc : s'.replaceCalls = s.replaceCalls)
    (hw : s'.jumpHeap.words = s.jumpHeap.words) : RemovalFramed s s' h where
  list := hl
  elsewhere := fun q hq _ => ho q hq
  before := by
    intro pre post hsplit q hq
    rw [hsplit] at hn
    apply ho
    intro e
    exact (nodup_split hn).1 (e ▸ hq)
  mem := fun a _ => by rw [hm]
  words := ⟨hc, hw⟩
  unpatched := fun _ => ⟨hm, ho⟩

theorem removalFramed_of_restoredAt {s s₁ s' : State} {h : Word} {pre post : List Word}
    (hn : s.gPatchedFunctions.Nodup) (hl : s.gPatchedFunctions = pre ++ h :: post) (hp : (s.objects h).isPatched = true)
    (h₁ : RestoredAt (s.objects h).realPhysicalFunctionAddress ((sameAddress s h post).reverse ++ [h]) s s₁)
    (hs' : BuffersDiffer { s₁ with gPatchedFunctions := pre ++ post } s' h) : RemovalFramed s s' h := by
  obtain ⟨m, o, rfl, hm, ho⟩ := h₁
  have hne := hn
  rw [hl] at hne
  obtain ⟨hpre, hpost⟩ := nodup_split hne
  have hother : ∀ q, q ≠ h → q ∉ sameAddress s h post → s'.objects q = s.objects q := by
    intro q hq hnot
    rw [hs'.objects_ne hq]
    rcases ho q with e | ⟨hmem, _⟩
    · exact e
    · rcases List.mem_append.mp hmem with hmem | hmem
      · exact absurd (List.mem_reverse.mp hmem) hnot
      · exact absurd (List.mem_singleton.mp hmem) hq
  refine ⟨?_, ?_, ?_, ?_, ⟨hs'.replaceCalls, hs'.words⟩, ?_⟩
  · rw [hs'.list, hl, filter_ne_split hne]
  · intro q hq hdiffer
    exact hother q hq fun hmem => hdiffer (mem_sameAddress.mp hmem).2
  · intro pre' post' hsplit q hq
    rw [hl] at hsplit
    obtain ⟨rfl, rfl⟩ := nodup_split_unique hne hsplit
    have hqpost : q ∉ post' := by
      intro hmem
      exact (List.nodup_append.mp hne).2.2 q hq q (List.mem_cons_of_mem _ hmem) rfl
    exact hother q (fun e => hpre (e ▸ hq)) fun hmem => hqpost (mem_sameAddress.mp hmem).1
  · intro a ha
    rw [hs'.mem_eq]
    exact hm a ha
  · intro hun
    rcases hun with hnot | hun
    · exact absurd (by rw [hl]; simp) hnot
    · rw [hp] at hun
      cases hun

/-- **The frame of a removal.** -/
theorem fpRemoveFunctionPatch_framed {E : Env} {s s' : State} {h : Word} {st : FunctionPatcherStatus}
    (hn : s.gPatchedFunctions.Nodup) (hmapped : Mapped E.osEffectiveToPhysical s)
    (hrestore : h ∈ s.gPatchedFunctions → (s.objects h).isPatched = true → RestoreSucceeds E s h)
    (hrun : fpRemoveFunctionPatch E s h = .ok (st, s')) : RemovalFramed s s' h := by
  by_cases hmem : h ∈ s.gPatchedFunctions
  · obtain ⟨pre, post, hl⟩ := List.append_of_mem hmem
    have hne := hn
    rw [hl] at hne
    obtain ⟨_, ⟨hun, rfl⟩ | ⟨hp, s₂, h₂, hcase⟩⟩ := fpRemoveFunctionPatch_ok hl hn hrun
    · have hd := destroy_frame { s with gPatchedFunctions := pre ++ post } h
      apply removalFramed_of_eq hn
      · rw [hd.list, hl, filter_ne_split hne]
      · exact hd.mem_eq
      · intro q hq
        exact hd.objects_ne hq
      · exact hd.replaceCalls
      · exact hd.words
    -- the restore of the record itself is the last one
    obtain ⟨s₁, h₁, hlast⟩ := forEach_append h₂
    have hscan : (removeScan s h {} s.gPatchedFunctions).toBeTempRestored = sameAddress s h post := by
      rw [hl, removeScan_split s h (nodup_split hne).1 (nodup_split hne).2, if_pos hp]
    obtain ⟨_, hself⟩ := hrestore hmem hp s₁ (by rw [hscan]; exact h₁)
    rw [forEach, hself] at hlast
    cases hlast
    have hcleared : (s₂.objects h).isPatched = false := by
      rcases restoreFunction_ok hself with ⟨hun, _, rfl⟩ | ⟨_, _, hb, _⟩ | ⟨_, _, rfl⟩
      · exact hun
      · cases hb
      · have hself : (restored E s₁ h).objects h = { s₁.objects h with isPatched := false } :=
          Function.update_self ..
        rw [hself]
    rcases hcase with ⟨_, rfl⟩ | ⟨hp₂, _⟩
    · refine removalFramed_of_restoredAt hn hl hp ?_ (destroy_frame _ h)
      refine RestoredAt.run ?_ h₂
      intro q hq hqp
      rcases List.mem_append.mp hq with hq | hq
      · obtain ⟨hq, hsame⟩ := mem_sameAddress.mp (List.mem_reverse.mp hq)
        rw [← hsame]
        exact hmapped.targetAddrPhys (by rw [hl]; simp [hq]) hqp
      · rw [List.mem_singleton.mp hq]
        exact hmapped.targetAddrPhys hmem hp
    · rw [hcleared] at hp₂
      cases hp₂
  · rw [fpRemoveFunctionPatch_not_mem hmem] at hrun
    cases hrun
    exact removalFramed_of_eq hn (filter_ne_of_not_mem hmem).symm rfl (fun _ _ => rfl) rfl rfl

theorem fpRemoveFunctionPatch_framed_below : RemovalFramed (added 2) (removed (added 2) 0x10) 0x10 := by
  have hl : (added 2).gPatchedFunctions = [0x10, 0x20] := by decide +kernel
  have hscan : (removeScan (added 2) 0x10 {} (added 2).gPatchedFunctions).toBeTempRestored.reverse = [0x20] := by
    decide +kernel
  have hmapped : Mapped (plainEnv 0 true).osEffectiveToPhysical (added 2) := by
    intro p hp
    rw [hl] at hp
    rcases List.mem_cons.mp hp with rfl | hp
    · intro _ _
      decide +kernel
    · rw [List.mem_singleton.mp hp]
      intro _ _
      decide +kernel
  refine fpRemoveFunctionPatch_framed (by decide +kernel) hmapped (fun _ _ s₁ h₁ => ?_)
    (eq_ok_afterCall (s := added 2) (by decide +kernel))
  rw [hscan] at h₁
  have habove := eq_ok_afterPass (s := added 2) (x := forEach (restoreFunction (plainEnv 0 true)) (added 2) [0x20])
    (by decide +kernel)
  rw [habove] at h₁
  simp only [Except.ok.injEq] at h₁
  rw [← h₁]
  exact ⟨_, eq_ok_afterPatch (s := added 2) (by decide +kernel)⟩

end FunctionPatcher
