import FunctionPatcher.Discipline

/-!
# The stacks over whole runs

The events preserve the stack discipline as long as every record is applied in
list order. `LOADED` and application starts break that: a record that was
waiting for its library, or was undone by a removal, is applied on top of
records that come after it in the list. Runs of `FPAddFunctionPatch` and
`FPRemoveFunctionPatch` alone never do, so they can be undone in any order.
-/

namespace FunctionPatcher

open Overlay

/-! ## `PatchFunction` in list order -/

/-- If `PatchFunction` applies the record at `p` now, the jump word reaches memory, the original
word and the effective address are not 0, and no record behind `p` is patched there. -/
def AppliesInOrder (original : Word → Word) (E : Env) (s : State) (p : Word) : Prop :=
  ∀ effective physical, (s.objects p).isPatched = false → targetOf E s p = some (effective, physical) →
    E.Writes ∧ original physical ≠ 0 ∧ effective ≠ 0 ∧ NonePatchedBehind s p physical

def LoopInOrder (original : Word → Word) (E : Env) : State → List Word → Prop
  | _, [] => True
  | s, p :: ps => AppliesInOrder original E s p ∧
    ∀ b s', patchFunction E s p = .ok (b, s') → LoopInOrder original E s' ps

section
variable {o : Word → Word} {E : Env} {s s' : State}

theorem Disciplined.patch {p : Word} {b : Bool} (h : Disciplined o s) (hm : p ∈ s.gPatchedFunctions)
    (hc : AppliesInOrder o E s p) (hrun : patchFunction E s p = .ok (b, s')) : Disciplined o s' := by
  rcases patchFunction_ok hrun with ⟨_, _, rfl⟩ | ⟨_, _, P, calls, rfl⟩ | ⟨_, A, hA, rfl⟩
  · exact h
  · exact h.congr rfl rfl fun _ _ => rfl
  · obtain ⟨hw, h0, he, hlast⟩ := hc _ _ hA.unpatched hA.target
    exact h.apply hm hA.unpatched (hA.written hw) h0 he hlast

theorem Disciplined.patchLoop {ps : List Word} (h : Disciplined o s) (hm : ∀ p ∈ ps, p ∈ s.gPatchedFunctions)
    (hc : LoopInOrder o E s ps) (hrun : forEach (patchFunction E) s ps = .ok s') : Disciplined o s' := by
  induction ps generalizing s with
  | nil =>
    cases hrun
    exact h
  | cons p ps ih =>
    obtain ⟨b, s₁, hf, hrun⟩ := forEach_cons hrun
    have h₁ := h.patch (hm p (List.mem_cons_self ..)) hc.1 hf
    refine ih h₁ (fun q hq => ?_) (hc.2 b s₁ hf) hrun
    rw [patchFunction_list hf]
    exact hm q (List.mem_cons_of_mem _ hq)

/-! ## Adding and removing -/

theorem Disciplined.add {fd : Option FunctionReplacementData} {res : AddResult} (h : Disciplined o s)
    (hnew : E.newObject ∉ s.gPatchedFunctions)
    (hc : ∀ d, fd = some d → AppliesInOrder o E (allocated E s d) E.newObject)
    (hrun : fpAddFunctionPatch E s fd = .ok (res, s')) : Disciplined o s' := by
  have hold : ∀ d, Disciplined o (allocated E s d) := fun d => by
    obtain ⟨hl, hmem, ho, _⟩ := allocated_spec E s d
    exact h.congr hl hmem fun q hq => ho q fun e => hnew (e ▸ hq)
  have hnew' : ∀ d, E.newObject ∉ (allocated E s d).gPatchedFunctions := fun d => by
    rw [(allocated_spec E s d).1]; exact hnew
  rcases fpAddFunctionPatch_ok hrun with ⟨_, rfl | ⟨d, s₁, _, ha, rfl⟩⟩ | ⟨_, _, d, b, s₁, s₂, hd, ha, hp, rfl⟩
  · exact h
  · have e : s₁ = allocated E s d := eq_allocated ha
    subst e
    refine (hold d).congr (destroy_frame _ _).list (destroy_frame _ _).mem_eq fun q hq => ?_
    exact (destroy_frame _ _).objects_ne fun e => hnew' d (e ▸ hq)
  · have e : s₁ = allocated E s d := eq_allocated ha
    subst e
    have hun := allocated_unpatched E s d
    have hpub := (hold d).append (hnew' d) hun
    rcases patchFunction_ok hp with ⟨hp', _⟩ | ⟨_, _, P, calls, rfl⟩ | ⟨_, A, hA, rfl⟩
    · rw [hun] at hp'; cases hp'
    · exact hpub.congr rfl rfl fun _ _ => rfl
    · -- publishing commutes with applying
      obtain ⟨hw, h0, he, _⟩ := hc d hd _ _ hun hA.target
      refine hpub.apply (E := E) (A := A) ?_ hun (hA.written hw) h0 he ?_
      · exact List.mem_append_right _ (List.mem_singleton_self _)
      · intro pre post hsplit q hq
        have hn := hpub.nodup
        rw [hsplit] at hn
        obtain ⟨_, rfl⟩ := nodup_split_unique hn (hsplit.symm.trans (rfl : _ = _ ++ E.newObject :: []))
        cases hq

def RemovesInOrder (E : Env) (s : State) (h : Word) : Prop :=
  h ∈ s.gPatchedFunctions → (s.objects h).isPatched = true → E.Reads ∧
    ∀ q ∈ restoredBy s h, (s.objects q).isPatched = true →
      targetAddrPhys E (s.objects q) = (s.objects q).realPhysicalFunctionAddress

theorem Disciplined.remove {h : Word} {st : FunctionPatcherStatus} {pre post : List Word} (hd : Disciplined o s)
    (hl : s.gPatchedFunctions = pre ++ h :: post) (hc : RemovesInOrder E s h)
    (hrun : fpRemoveFunctionPatch E s h = .ok (st, s')) :
    st = .success ∧ Disciplined o s' ∧ s'.gPatchedFunctions = pre ++ post ∧
    ∀ q, q ≠ h → s'.objects q = s.objects q ∨ s'.objects q = { s.objects q with isPatched := false } := by
  have hn := hd.nodup
  have hm : h ∈ s.gPatchedFunctions := by rw [hl]; simp
  have hnotin : h ∉ pre ++ post := by
    rw [hl] at hn
    simp only [List.mem_append, not_or]
    exact nodup_split hn
  obtain ⟨hst, hcase⟩ := fpRemoveFunctionPatch_ok hl hn hrun
  refine ⟨hst, ?_⟩
  -- destroying the record is invisible to the rest of the list
  have hdestroy : ∀ {t : State}, t.gPatchedFunctions = pre ++ post → Disciplined o t →
      Disciplined o (destroy t h) := fun ht hdt =>
    hdt.congr (destroy_frame _ h).list (destroy_frame _ h).mem_eq fun q hq =>
      (destroy_frame _ h).objects_ne fun e => hnotin (by rw [← ht, ← e]; exact hq)
  rcases hcase with ⟨hp, rfl⟩ | ⟨hp, s₁, h₁, hcase⟩
  · exact ⟨hdestroy rfl (hd.drop hl hp), (destroy_frame _ h).list, fun q hq =>
      .inl ((destroy_frame _ h).objects_ne hq)⟩
  obtain ⟨hr, ht⟩ := hc hm hp
  have hsame : sameAddress s h (h :: post) = h :: sameAddress s h post := by simp [sameAddress]
  have hsplit : (sameAddress s h (h :: post)).reverse = (sameAddress s h post).reverse ++ [h] := by
    rw [hsame, List.reverse_cons]
  rw [← hsplit] at h₁
  obtain ⟨hsucc, hd₁⟩ := hd.unwind hr hl (fun q hq => ht q (by
    rw [restoredBy_split hl hn hp, ← hsplit]; exact List.mem_reverse.mpr hq)) h₁
  obtain ⟨m, rfl⟩ := restores_effect hsucc h₁
  rcases hcase with ⟨hp₁, rfl⟩ | ⟨hp₁, _⟩
  · refine ⟨hdestroy rfl (hd₁.drop hl hp₁), (destroy_frame _ h).list, fun q hq => ?_⟩
    rw [(destroy_frame _ h).objects_ne hq]
    simp only
    split
    · exact .inr rfl
    · exact .inl rfl
  · simp [hsame] at hp₁

/-! ## `CheckIfPatchedFunctionsAreStillInMemory` -/

/-- On stacked records the check finds every jump in place. The invariant of the loop: the
addresses of the patched records visited are in the set of unchanged ones, and the other set
is empty. -/
theorem Disciplined.checkLoop_eq (hd : Disciplined o s) : ∀ {ps post : List Word} {unchanged : List Word},
    s.gPatchedFunctions = ps ++ post →
    (E.Reads → ∀ q ∈ post, (s.objects q).isPatched = true →
      (s.objects q).realPhysicalFunctionAddress ∈ unchanged) →
    checkLoop E s ⟨unchanged, []⟩ ps.reverse = s := by
  intro ps
  induction ps using List.reverseRecOn with
  | nil => intros; rfl
  | append_singleton ps p ih =>
    intro post unchanged hl hu
    have hl' : s.gPatchedFunctions = ps ++ p :: post := by rw [hl]; simp
    rw [List.reverse_append, List.reverse_singleton, List.singleton_append, checkLoop]
    simp only
    by_cases hskip : (!(s.objects p).isPatched) = true ∨ (s.objects p).realPhysicalFunctionAddress ∈ unchanged
    · rw [if_pos hskip]
      refine ih hl' fun hr q hq hqp => ?_
      rcases List.mem_cons.mp hq with rfl | hq
      · exact hskip.resolve_left (by simp [hqp])
      · exact hu hr q hq hqp
    · rw [if_neg hskip, if_neg (by simp)]
      simp only [not_or, Bool.not_eq_true, Bool.not_eq_false'] at hskip
      obtain ⟨hp, hpu⟩ := hskip
      split
      · rename_i hread
        refine ih hl' fun hr => ?_
        rw [readFromPhysicalAddress_eq hr] at hread; cases hread
      · rename_i w hread
        obtain ⟨hr, rfl⟩ := readFromPhysicalAddress_some hread
        have hs := hd.stacked
        unfold State.records at hs
        rw [hl', List.map_append, List.map_cons] at hs
        rw [if_pos (hs.shown hp fun r hrm hrp => ?_)]
        · refine ih hl' fun _ q hq hqp => ?_
          rcases List.mem_cons.mp hq with rfl | hq
          · exact List.mem_cons_self ..
          · exact List.mem_cons_of_mem _ (hu hr q hq hqp)
        · obtain ⟨q, hq, rfl⟩ := List.mem_map.mp hrm
          exact fun e => hpu (e ▸ hu hr q hq hrp)

theorem Disciplined.check_eq (hd : Disciplined o s) : checkIfPatchedFunctionsAreStillInMemory E s = s :=
  hd.checkLoop_eq (List.append_nil _).symm fun _ _ hq => by cases hq

end

/-! ## Runs with notifications -/

/-- A state together with the original word of each address, which whoever writes memory
other than this module may still change where nothing is patched. -/
structure Traced where
  state : State
  original : Word → Word

/-- The condition on an event before it happens. Unloads are left out. -/
def InOrder (original : Word → Word) (E : Env) (s : State) : Event → Prop
  | .add fd => ∀ d, fd = some d → AppliesInOrder original E (allocated E s d) E.newObject
  | .remove h => RemovesInOrder E s h
  | .notify _ .loaded => LoopInOrder original E s s.gPatchedFunctions
  | .notify _ .unloaded => False
  | .applicationStarts => (E.upid = 2 ∨ E.upid = 15) → LoopInOrder original E s s.gPatchedFunctions
  | .applicationEnds => True

inductive OrderedStep : Traced → Traced → Prop
  | event {s s' : State} {o : Word → Word} (E : Env) (ev : Event) : E.newObject ∉ s.gPatchedFunctions →
      InOrder o E s ev → ev.run E s = .ok s' → OrderedStep ⟨s, o⟩ ⟨s', o⟩
  | memory {s : State} {o : Word → Word} (mem : Word → Word) :
      (∀ p ∈ s.gPatchedFunctions, (s.objects p).isPatched = true →
        mem (s.objects p).realPhysicalFunctionAddress = s.mem (s.objects p).realPhysicalFunctionAddress) →
      OrderedStep ⟨s, o⟩ ⟨{ s with mem := mem }, fun a => if (patchesAt s a).isEmpty then mem a else o a⟩

/-- **Step lemma.** An event in list order preserves the discipline. -/
theorem Disciplined.event {o : Word → Word} {E : Env} {s s' : State} {ev : Event} (hd : Disciplined o s)
    (hnew : E.newObject ∉ s.gPatchedFunctions) (hc : InOrder o E s ev) (hrun : ev.run E s = .ok s') :
    Disciplined o s' := by
  cases ev with
  | add fd =>
    obtain ⟨res, hadd⟩ := Event.run_ok_add hrun
    exact hd.add hnew hc hadd
  | remove h =>
    obtain ⟨st, hrem⟩ := Event.run_ok_remove hrun
    by_cases hm : h ∈ s.gPatchedFunctions
    · obtain ⟨pre, post, hl⟩ := List.append_of_mem hm
      exact (hd.remove hl hc hrem).2.1
    · rw [fpRemoveFunctionPatch_not_mem hm] at hrem; cases hrem; exact hd
  | notify module reason =>
    cases reason with
    | loaded => exact hd.patchLoop (fun _ hp => hp) hc hrun
    | unloaded => exact hc.elim
  | applicationStarts =>
    simp only [Event.run, FunctionPatcher.applicationStarts, hd.check_eq] at hrun
    split at hrun
    · cases hrun; exact hd
    · rename_i hu
      exact hd.patchLoop (fun _ hp => hp) (hc (by tauto)) hrun
  | applicationEnds => cases hrun; exact hd.congr rfl rfl fun _ _ => rfl

theorem Disciplined.memory {o : Word → Word} {s : State} {m : Word → Word} (hd : Disciplined o s)
    (hm : ∀ p ∈ s.gPatchedFunctions, (s.objects p).isPatched = true →
      m (s.objects p).realPhysicalFunctionAddress = s.mem (s.objects p).realPhysicalFunctionAddress) :
    Disciplined (fun a => if (patchesAt s a).isEmpty then m a else o a) { s with mem := m } where
  nodup := hd.nodup
  stacked := fun a => by
    have hs := hd.stacked a
    show Chain _ _ (if (patchesAt s a).isEmpty = true then m a else o a) (patchesAt s a) (m a)
    cases hl : patchesAt s a with
    | nil => rfl
    | cons r rs =>
      -- some record is patched at `a`, so `m` agrees there
      have hr : r ∈ patchesAt s a := by rw [hl]; exact List.mem_cons_self ..
      obtain ⟨hrm, hrp, hra⟩ := mem_layersAt.mp hr
      obtain ⟨q, hq, rfl⟩ := List.mem_map.mp hrm
      have hma : m a = s.mem a := by rw [← hra]; exact hm q hq hrp
      rw [if_neg (by simp), hma, ← hl]
      exact hs
  complete := hd.complete

/-- **Run lemma.** -/
theorem disciplined_of_steps {s₀ : State} {t : Traced} (h₀ : s₀.Initial)
    (hrun : Relation.ReflTransGen OrderedStep ⟨s₀, s₀.mem⟩ t) : Disciplined t.original t.state := by
  induction hrun with
  | refl => exact disciplined_empty h₀.empty
  | tail _ step ih =>
    cases step with
    | event E ev hnew hc hrun => exact ih.event hnew hc hrun
    | memory m hm => exact ih.memory hm

/-- **Stack discipline.** It holds in every state of every run whose events apply records in
list order. -/
theorem stackDiscipline_of_steps {s₀ : State} {t : Traced} (h₀ : s₀.Initial)
    (hrun : Relation.ReflTransGen OrderedStep ⟨s₀, s₀.mem⟩ t) : StackDiscipline t.original t.state :=
  (disciplined_of_steps h₀ hrun).stackDiscipline

theorem appliesInOrder_of_target {o : Word → Word} {E : Env} {s : State} {p effective physical : Word}
    (hnew : p ∉ s.gPatchedFunctions) (ht : targetOf E s p = some (effective, physical)) (hw : E.Writes)
    (h0 : o physical ≠ 0) (he : effective ≠ 0) : AppliesInOrder o E s p := by
  intro effective' physical' _ ht'
  rw [ht] at ht'
  cases ht'
  exact ⟨hw, h0, he, fun pre post hl => absurd (by rw [hl]; simp) hnew⟩

theorem inOrder_add_of_target {o : Word → Word} {E : Env} {s : State} {d : FunctionReplacementData}
    (effective physical : Word) (hnew : E.newObject ∉ s.gPatchedFunctions)
    (ht : targetOf E (allocated E s d) E.newObject = some (effective, physical)) (hw : E.Writes)
    (h0 : o physical ≠ 0) (he : effective ≠ 0) : InOrder o E s (.add (some d)) := by
  intro d' hd
  cases hd
  exact appliesInOrder_of_target (by rw [(allocated_spec E s d).1]; exact hnew) ht hw h0 he

theorem stackDiscipline_of_steps_two :
    StackDiscipline (plainState 0x7c0802a6).mem (stackedPatches [0x10, 0x20]) := by
  have h₁ : OrderedStep ⟨plainState 0x7c0802a6, (plainState 0x7c0802a6).mem⟩
      ⟨stackedPatches [0x10], (plainState 0x7c0802a6).mem⟩ :=
    .event (plainEnv 0x10 false) (plainPatch .other 0x02000400 0x1000 .all) (by decide)
      (inOrder_add_of_target 0x02000400 0x02000400 (by decide) (by decide +kernel) (plainEnv_writes _ _)
        (by decide) (by decide)) rfl
  have h₂ : OrderedStep ⟨stackedPatches [0x10], (plainState 0x7c0802a6).mem⟩
      ⟨stackedPatches [0x10, 0x20], (plainState 0x7c0802a6).mem⟩ :=
    .event (plainEnv 0x20 false) (plainPatch .other 0x02000400 0x2000 .all) (by decide +kernel)
      (inOrder_add_of_target 0x02000400 0x02000400 (by decide +kernel) (by decide +kernel)
        (plainEnv_writes _ _) (by decide) (by decide)) rfl
  exact stackDiscipline_of_steps (plainState_initial _) (.tail (.single h₁) h₂)

def lateLoad : List (Env × Event) :=
  [(plainEnv 0x10 false, plainPatch .coreinit 0 0x1000 .all),
   (plainEnv 0x20 false, plainPatch .other 0x02000400 0x10002000 .all),
   (plainEnv 0x30 true, .notify 0x500 .loaded)]

theorem lateLoad_not_stackDiscipline :
    (execute (plainState 0x7c0802a6) lateLoad).isSome = true ∧
    ¬ StackDiscipline (plainState 0x7c0802a6).mem (ran (plainState 0x7c0802a6) lateLoad) := by
  refine ⟨by decide +kernel, fun H => ?_⟩
  have := (H 0x02000400).1
  revert this
  decide +kernel

end FunctionPatcher
