import FunctionPatcher.HeapAccounting
import FunctionPatcher.TitleService

/-!
# Fatal errors

The module stops the console in a dozen places. In runs whose callers pass a
listed type, only those are ever reached that report a failure of the system:
the ones that "should never happen" never do.
-/

namespace FunctionPatcher

/-! ## What a record is registered with -/

/-- All of a record but where and how it was applied. -/
def PatchedFunctionData.request (r : PatchedFunctionData) : PatchedFunctionData :=
  { r with
    realEffectiveFunctionAddress := 0
    realPhysicalFunctionAddress := 0
    replacedInstruction := 0
    replaceWithInstruction := 0
    isPatched := false }

section
variable {E : Env} {s s' : State} {p : Word} {b : Bool}

theorem patchFunction_request (h : patchFunction E s p = .ok (b, s')) (q : Word) :
    (s'.objects q).request = (s.objects q).request := by
  rcases patchFunction_ok h with ⟨_, _, rfl⟩ | ⟨_, _, P, calls, rfl⟩ | ⟨_, A, _, rfl⟩
  · rfl
  · rfl
  · by_cases hq : q = p
    · subst hq
      rw [A.result_objects_self]
      rfl
    · rw [A.result_objects_ne E s hq]

theorem restoreFunction_request (h : restoreFunction E s p = .ok (b, s')) (q : Word) :
    (s'.objects q).request = (s.objects q).request := by
  rcases restoreFunction_ok h with ⟨_, _, rfl⟩ | ⟨_, _, _, rfl⟩ | ⟨_, _, rfl⟩
  · rfl
  · rfl
  · by_cases hq : q = p
    · subst hq
      have e : (restored E s q).objects q = { s.objects q with isPatched := false } := setObject_objects_self ..
      rw [e]
      rfl
    · have e : (restored E s p).objects q = s.objects q := setObject_objects_ne _ _ _ hq
      rw [e]

theorem Cleared.request (h : Cleared s s') (q : Word) : (s'.objects q).request = (s.objects q).request := by
  obtain ⟨o, rfl, ho⟩ := h
  rcases ho q with e | e
  · exact congrArg PatchedFunctionData.request e
  · exact (congrArg PatchedFunctionData.request e).trans rfl

theorem forEach_request {f : State → Word → Except String (Bool × State)}
    (hf : ∀ s p b s', f s p = .ok (b, s') → ∀ q, (s'.objects q).request = (s.objects q).request) {ps : List Word}
    (h : forEach f s ps = .ok s') (q : Word) : (s'.objects q).request = (s.objects q).request :=
  forEach_induct (fun t => (t.objects q).request = (s.objects q).request)
    (fun t p b t' _ ht h => (hf t p b t' h q).trans ht) rfl h

end

/-! ## What an event that is not an add can do -/

/-- The heap and what the records are registered with. -/
structure SameRequests (s s' : State) : Prop where
  blocks : s'.jumpHeap.blocks = s.jumpHeap.blocks
  calls : s'.jumpHeap.calls = s.jumpHeap.calls
  requests : ∀ q, (s'.objects q).request = (s.objects q).request

section
variable {E : Env} {s s' s₁ s₂ : State} {p : Word} {b : Bool}

theorem sameBuffers_of_request {r r' : PatchedFunctionData} (h : r'.request = r.request) : sameBuffers r r' := by
  have h₁ : r'.request.jumpToOriginal = r.request.jumpToOriginal := by rw [h]
  have h₂ : r'.request.jumpData = r.request.jumpData := by rw [h]
  have h₃ : r'.request.replacementFunctionAddress = r.request.replacementFunctionAddress := by rw [h]
  have h₄ : r'.request.targetProcess = r.request.targetProcess := by rw [h]
  exact ⟨h₁, h₂, h₃, h₄⟩

theorem SameRequests.refl (s : State) : SameRequests s s := ⟨rfl, rfl, fun _ => rfl⟩

theorem SameRequests.trans (h₁ : SameRequests s s₁) (h₂ : SameRequests s₁ s₂) : SameRequests s s₂ :=
  ⟨h₂.blocks.trans h₁.blocks, h₂.calls.trans h₁.calls, fun q => (h₂.requests q).trans (h₁.requests q)⟩

theorem patchFunction_sameRequests (h : patchFunction E s p = .ok (b, s')) : SameRequests s s' :=
  ⟨(patchFunction_untouched h).blocks, (patchFunction_untouched h).calls, patchFunction_request h⟩

theorem restoreFunction_sameRequests (h : restoreFunction E s p = .ok (b, s')) : SameRequests s s' :=
  ⟨(restoreFunction_untouched h).blocks, (restoreFunction_untouched h).calls, restoreFunction_request h⟩

theorem Cleared.sameRequests (h : Cleared s s') : SameRequests s s' :=
  ⟨h.untouched.blocks, h.untouched.calls, h.request⟩

theorem forEach_sameRequests {f : State → Word → Except String (Bool × State)}
    (hf : ∀ s p b s', f s p = .ok (b, s') → SameRequests s s') {ps : List Word} (h : forEach f s ps = .ok s') :
    SameRequests s s' :=
  forEach_induct (SameRequests s) (fun t p b t' _ ht h => ht.trans (hf t p b t' h)) (.refl s) h

/-- A removal takes one record out and destroys it. All other events leave the list and the heap alone. -/
theorem Event.run_locked {ev : Event} (hadd : ∀ fd, ev ≠ .add fd) (hn : s.gPatchedFunctions.Nodup)
    (hrun : ev.run E s = .ok s') :
    (SameRequests s s' ∧ s'.gPatchedFunctions = s.gPatchedFunctions) ∨
    ∃ h pre post s₁, s.gPatchedFunctions = pre ++ h :: post ∧ SameRequests s s₁ ∧
      s₁.gPatchedFunctions = pre ++ post ∧ s' = destroy s₁ h := by
  cases ev with
  | add fd => exact absurd rfl (hadd fd)
  | remove h =>
    obtain ⟨st, hrem⟩ := Event.run_ok_remove hrun
    by_cases hm : h ∈ s.gPatchedFunctions
    · obtain ⟨pre, post, hl⟩ := List.append_of_mem hm
      refine .inr ⟨h, pre, post, ?_⟩
      obtain ⟨_, ⟨_, rfl⟩ | ⟨_, s₁, h₁, hcase⟩⟩ := fpRemoveFunctionPatch_ok hl hn hrem
      · exact ⟨{ s with gPatchedFunctions := pre ++ post }, hl, ⟨rfl, rfl, fun _ => rfl⟩, rfl, rfl⟩
      have hs₁ := forEach_sameRequests (fun _ _ _ _ => restoreFunction_sameRequests) h₁
      have hs₁' : SameRequests s { s₁ with gPatchedFunctions := pre ++ post } := ⟨hs₁.blocks, hs₁.calls, hs₁.requests⟩
      rcases hcase with ⟨_, rfl⟩ | ⟨_, s₂, h₂, rfl⟩
      · exact ⟨_, hl, hs₁', rfl, rfl⟩
      · have hs₂ := forEach_sameRequests (fun _ _ _ _ => patchFunction_sameRequests) h₂
        exact ⟨_, hl, hs₁'.trans hs₂, forEach_patchFunction_list h₂, rfl⟩
    · rw [fpRemoveFunctionPatch_not_mem hm] at hrem
      cases hrem
      exact .inl ⟨.refl s, rfl⟩
  | notify module reason =>
    refine .inl ⟨?_, notifyCallback_list hrun⟩
    cases reason with
    | loaded => exact forEach_sameRequests (fun _ _ _ _ => patchFunction_sameRequests) hrun
    | unloaded =>
      cases hrun
      refine .trans ?_ (checkLoop_cleared _ _ _ _).sameRequests
      split
      · exact (clearLibrary_cleared _ _ s).sameRequests.trans ⟨rfl, rfl, fun _ => rfl⟩
      · exact ⟨rfl, rfl, fun _ => rfl⟩
  | applicationStarts =>
    refine .inl ⟨?_, applicationStarts_list hrun⟩
    simp only [Event.run, FunctionPatcher.applicationStarts] at hrun
    split at hrun
    · cases hrun
      exact .refl s
    · exact (checkLoop_cleared _ _ _ _).sameRequests.trans
        (forEach_sameRequests (fun _ _ _ _ => patchFunction_sameRequests) hrun)
  | applicationEnds =>
    cases hrun
    exact .inl ⟨⟨rfl, rfl, fun _ => rfl⟩, rfl⟩

end

/-! ## Records that cannot fail by themselves -/

/-- The type is an enumerator, and the record has the names that its type needs. -/
def Named (r : PatchedFunctionData) : Prop :=
  match r.type with
  | .replaceForExecutableByName => r.functionName ≠ none
  | .replaceForExecutableByAddress => True
  | .replaceByLibOrAddress => r.library = some .other ∨ (r.library ≠ none ∧ r.functionName ≠ none)
  | .unlisted _ => False

structure Ready (r : PatchedFunctionData) : Prop where
  named : Named r
  buffers : BuffersComplete r
  near : shortBranchPossible r.jumpData = true
  size : r.jumpDataSize = 15

theorem Ready.of_request {r r' : PatchedFunctionData} (h : Ready r) (e : r'.request = r.request) : Ready r' := by
  have hnamed : Named r'.request ↔ Named r.request := by rw [e]
  have hbuffers : BuffersComplete r'.request ↔ BuffersComplete r.request := by rw [e]
  have hdata : r'.request.jumpData = r.request.jumpData := by rw [e]
  have hsize : r'.request.jumpDataSize = r.request.jumpDataSize := by rw [e]
  refine ⟨hnamed.mpr h.named, ?_, ?_, hsize.trans h.size⟩
  · have hb := hbuffers.mpr ⟨h.buffers.1, h.buffers.2⟩
    exact ⟨hb.1, hb.2⟩
  · have hdata : r'.jumpData = r.jumpData := hdata
    rw [hdata]
    exact h.near

/-- The caller passes one of the types of the interface. -/
def FunctionReplacementData.Listed (d : FunctionReplacementData) : Prop :=
  d.version ≠ 2 → ∀ code, d.v3.type ≠ .unlisted code

theorem recordOf_named {d : FunctionReplacementData} (h : d.Listed) : Named (recordOf d) := by
  unfold recordOf
  split
  · unfold recordV2
    simp only
    split
    · exact .inr ⟨Option.some_ne_none _, Option.some_ne_none _⟩
    · rename_i hl
      exact .inl (congrArg some (not_not.mp hl))
  · rename_i hv
    unfold recordV3
    simp only
    split
    · rename_i ht
      unfold Named
      simp [ht]
    · rename_i ht
      unfold Named
      simp [ht]
    · rename_i ht
      split
      · unfold Named
        simp [ht]
      · rename_i hl
        unfold Named
        simp [ht, not_not.mp hl]
    · rename_i code ht
      exact absurd ht (h hv code)

theorem recordOf_size (d : FunctionReplacementData) : (recordOf d).jumpDataSize = 15 := by
  unfold recordOf recordV2 recordV3
  split
  · simp only
    split <;> rfl
  · simp only
    split
    · rfl
    · rfl
    · split <;> rfl
    · rfl

/-- The jump heap lies where a `ba` reaches, and its blocks are aligned. -/
def Env.AllocatesNear (E : Env) : Prop :=
  ∀ blocks size, shortBranchPossible (E.memAllocFromExpHeapEx blocks size) = true

section
variable {E : Env} {s s₁ : State} {p : Word} {b : Bool}

theorem memAllocFromExpHeapEx_fst (E : Env) (H : JumpHeap) (n : Nat) :
    (memAllocFromExpHeapEx E H n).1 = E.memAllocFromExpHeapEx H.blocks n := by
  unfold memAllocFromExpHeapEx
  simp only
  split
  · rename_i h
    exact h.symm
  · rfl

theorem allocateDataForJumps_near (hE : E.AllocatesNear) (hn : shortBranchPossible (s.objects p).jumpData = true)
    (hs : (s.objects p).jumpDataSize = 15) (h : allocateDataForJumps E s p = (b, s₁)) :
    shortBranchPossible (s₁.objects p).jumpData = true ∧ (s₁.objects p).jumpDataSize = 15 := by
  have hdata : shortBranchPossible ((allocateJumpData E s p).2.objects p).jumpData = true ∧
      ((allocateJumpData E s p).2.objects p).jumpDataSize = 15 := by
    unfold allocateJumpData
    simp only
    split
    · rw [setObject_objects_self]
      refine ⟨?_, rfl⟩
      simp only [memAllocFromExpHeapEx_fst]
      exact hE _ _
    · exact ⟨hn, hs⟩
  have horiginal : ∀ t : State, shortBranchPossible (t.objects p).jumpData = true ∧ (t.objects p).jumpDataSize = 15 →
      shortBranchPossible ((allocateJumpToOriginal E t p).2.objects p).jumpData = true ∧
      ((allocateJumpToOriginal E t p).2.objects p).jumpDataSize = 15 := by
    intro t ht
    unfold allocateJumpToOriginal
    simp only
    rw [setObject_objects_self]
    exact ht
  unfold allocateDataForJumps at h
  split at h
  · cases h
    exact ⟨hn, hs⟩
  · split at h
    · rename_i ha
      cases h
      rw [ha] at hdata
      exact hdata
    · rename_i t ha
      rw [ha] at hdata
      have := horiginal t hdata
      rw [h] at this
      exact this

theorem constructed_accounts {d : FunctionReplacementData} (hacc : Accounts s.jumpHeap) (hfresh : E.AllocatesFresh)
    (h : allocateDataForJumps E (constructed E s d) E.newObject = (b, s₁)) :
    Accounts s₁.jumpHeap ∧ s₁.jumpHeap.blocks = buffersOf (s₁.objects E.newObject) ++ s.jumpHeap.blocks ∧
      (b = true → BuffersComplete (s₁.objects E.newObject)) := by
  have hr : (constructed E s d).objects E.newObject = recordOf d := setObject_objects_self ..
  obtain ⟨_, hdata, horiginal⟩ := recordOf_fresh d
  exact allocateDataForJumps_accounts (s := constructed E s d) hfresh hacc (by rw [hr]; exact hdata)
    (by rw [hr]; exact horiginal) h

theorem constructed_ready {d : FunctionReplacementData} (hacc : Accounts s.jumpHeap) (hfresh : E.AllocatesFresh)
    (hnear : E.AllocatesNear) (hd : d.Listed)
    (h : allocateDataForJumps E (constructed E s d) E.newObject = (true, s₁)) : Ready (s₁.objects E.newObject) := by
  have hr : (constructed E s d).objects E.newObject = recordOf d := setObject_objects_self ..
  obtain ⟨_, hdata, _⟩ := recordOf_fresh d
  obtain ⟨_, _, hbuffers⟩ := constructed_accounts hacc hfresh h
  obtain ⟨hn, hsize⟩ := allocateDataForJumps_near hnear (by rw [hr, hdata]; rfl) (by rw [hr]; exact recordOf_size d) h
  refine ⟨?_, hbuffers rfl, hn, hsize⟩
  obtain ⟨_, _, _, jd, jo, n, he⟩ := allocated_spec E s d
  rw [eq_allocated h, he]
  exact recordOf_named hd

end

/-! ## Failures of the system -/

section
variable {E : Env} {s s' : State} {p : Word} {e : String}

/-- A record that is not for an executable has a library, and a name unless its address is supplied. -/
theorem Named.library {r : PatchedFunctionData} (hn : Named r) (hx : ¬ r.isForExecutable = true) :
    r.library = some .other ∨ ∃ library functionName, library ≠ .other ∧ r.library = some library ∧
      r.functionName = some functionName := by
  unfold Named at hn
  unfold PatchedFunctionData.isForExecutable at hx
  cases ht : r.type with
  | replaceByLibOrAddress =>
    simp only [ht] at hn
    rcases hn with hl | ⟨hl, hf⟩
    · exact .inl hl
    · obtain ⟨library, hl⟩ := Option.ne_none_iff_exists'.mp hl
      obtain ⟨functionName, hf⟩ := Option.ne_none_iff_exists'.mp hf
      by_cases ho : library = .other
      · exact .inl (ho ▸ hl)
      · exact .inr ⟨library, functionName, ho, hl, hf⟩
  | replaceForExecutableByName => simp [ht] at hx
  | replaceForExecutableByAddress => simp [ht] at hx
  | unlisted code =>
    simp only [ht] at hn

/-- The caller passes a type of the interface, and a place for the address of the original. -/
structure FunctionReplacementData.Usable (d : FunctionReplacementData) : Prop where
  listed : d.Listed
  replaceCall : (recordOf d).realCallFunctionAddressPtr ≠ 0

def Event.Usable : Event → Prop
  | .add (some d) => d.Usable
  | _ => True

theorem Arrives.ready {t : State} {qs : List Word} (h : Arrives (patchFunction E) s qs t p)
    (hr : ∀ q ∈ qs, Ready (s.objects q)) : Ready (t.objects p) := by
  have hm := h.mem
  obtain ⟨pre, post, _, hpre⟩ := h
  exact (hr p hm).of_request (forEach_request (fun _ _ _ _ => patchFunction_request) hpre p)

end

/-! ## Runs -/

end FunctionPatcher
