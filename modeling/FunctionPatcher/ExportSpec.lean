import FunctionPatcher.Export
import FunctionPatcher.PatcherSpec

/-!
# What one call of the exported functions can do

`FPAddFunctionPatch` and `FPRemoveFunctionPatch` by their outcomes. The removal
loop is the split of the list at the handle, which the handles being distinct
makes unique.
-/

namespace FunctionPatcher

/-! ## Loops over records -/

section
variable {f : State → Word → Except String (Bool × State)}

theorem forEach_append {s s' : State} {ps qs : List Word} (h : forEach f s (ps ++ qs) = .ok s') :
    ∃ s₁, forEach f s ps = .ok s₁ ∧ forEach f s₁ qs = .ok s' := by
  induction ps generalizing s with
  | nil => exact ⟨s, rfl, h⟩
  | cons p ps ih =>
    simp only [List.cons_append, forEach] at h ⊢
    split at h
    · cases h
    · exact ih h

theorem forEach_cons {s s' : State} {p : Word} {ps : List Word} (h : forEach f s (p :: ps) = .ok s') :
    ∃ b s₁, f s p = .ok (b, s₁) ∧ forEach f s₁ ps = .ok s' := by
  simp only [forEach] at h
  split at h
  · cases h
  · rename_i b s₁ hf; exact ⟨b, s₁, hf, h⟩

/-- The loop over `ps` comes to `p` in the state `t`. -/
def Arrives (f : State → Word → Except String (Bool × State)) (s : State) (ps : List Word) (t : State)
    (p : Word) : Prop :=
  ∃ pre post, ps = pre ++ p :: post ∧ forEach f s pre = .ok t

theorem Arrives.mem {s t : State} {ps : List Word} {p : Word} (h : Arrives f s ps t p) : p ∈ ps := by
  obtain ⟨pre, post, rfl, _⟩ := h
  simp

theorem Arrives.append {s t : State} {ps : List Word} {p : Word} (h : Arrives f s ps t p) (qs : List Word) :
    Arrives f s (ps ++ qs) t p := by
  obtain ⟨pre, post, rfl, hpre⟩ := h
  exact ⟨pre, post ++ qs, by simp, hpre⟩

/-- What every step keeps where the loop takes it, the loop keeps. -/
theorem forEach_induct_arrives (I : State → Prop) {s s' : State} {ps : List Word}
    (hI : ∀ t p b t', Arrives f s ps t p → I t → f t p = .ok (b, t') → I t') (hs : I s)
    (h : forEach f s ps = .ok s') : I s' := by
  -- from the end of the list, so that the state a step begins in is the one the steps before it leave
  induction ps using List.reverseRecOn generalizing s' with
  | nil =>
    cases h
    exact hs
  | append_singleton ps p ih =>
    obtain ⟨t, hps, h⟩ := forEach_append h
    obtain ⟨b, t', hf, hnil⟩ := forEach_cons h
    cases hnil
    have ht : I t := ih (fun u q c u' harr => hI u q c u' (harr.append [p])) hps
    exact hI t p b s' ⟨ps, [], rfl, hps⟩ ht hf

theorem forEach_induct (I : State → Prop) {s s' : State} {ps : List Word}
    (hI : ∀ t p b t', p ∈ ps → I t → f t p = .ok (b, t') → I t') (hs : I s) (h : forEach f s ps = .ok s') :
    I s' :=
  forEach_induct_arrives I (fun t p b t' harr => hI t p b t' harr.mem) hs h

theorem forEach_visits {s s' : State} {ps : List Word} (h : forEach f s ps = .ok s') {p : Word} (hp : p ∈ ps) :
    ∃ pre post t b t', ps = pre ++ p :: post ∧ forEach f s pre = .ok t ∧ f t p = .ok (b, t') ∧
      forEach f t' post = .ok s' := by
  obtain ⟨pre, post, rfl⟩ := List.append_of_mem hp
  obtain ⟨t, hpre, h⟩ := forEach_append h
  obtain ⟨b, t', hf, hpost⟩ := forEach_cons h
  exact ⟨pre, post, t, b, t', rfl, hpre, hf, hpost⟩

/-- A loop comes to its first record, or to one of the others once it has passed the first. -/
theorem arrives_cons_iff {s s₁ t : State} {p q : Word} {ps : List Word} {b : Bool} (hf : f s p = .ok (b, s₁)) :
    Arrives f s (p :: ps) t q ↔ (t = s ∧ q = p) ∨ Arrives f s₁ ps t q := by
  constructor
  · rintro ⟨pre, post, hl, hpre⟩
    cases pre with
    | nil =>
      cases hl
      cases hpre
      exact .inl ⟨rfl, rfl⟩
    | cons r pre =>
      cases hl
      simp only [forEach, hf] at hpre
      exact .inr ⟨pre, post, rfl, hpre⟩
  · rintro (⟨rfl, rfl⟩ | ⟨pre, post, rfl, hpre⟩)
    · exact ⟨[], ps, rfl, rfl⟩
    · refine ⟨p :: pre, post, rfl, ?_⟩
      simp only [forEach, hf]
      exact hpre

/-- A loop fails where it comes to a record at which it fails. -/
theorem forEach_error_iff {s : State} {ps : List Word} {e : String} :
    forEach f s ps = .error e ↔ ∃ t p, Arrives f s ps t p ∧ f t p = .error e := by
  induction ps generalizing s with
  | nil =>
    constructor
    · intro h
      cases h
    · rintro ⟨t, p, h, _⟩
      cases h.mem
  | cons p ps ih =>
    cases hf : f s p with
    | error e' =>
      simp only [forEach, hf]
      constructor
      · rintro ⟨⟩
        exact ⟨s, p, ⟨[], ps, rfl, rfl⟩, hf⟩
      · rintro ⟨t, q, ⟨pre, post, hl, hpre⟩, he⟩
        cases pre with
        | nil =>
          cases hl
          cases hpre
          rw [hf] at he
          cases he
          rfl
        | cons r pre =>
          cases hl
          simp only [forEach, hf] at hpre
          cases hpre
    | ok r =>
      simp only [forEach, hf, arrives_cons_iff hf]
      rw [ih]
      constructor
      · rintro ⟨t, q, harr, he⟩
        exact ⟨t, q, .inr harr, he⟩
      · rintro ⟨t, q, ⟨rfl, rfl⟩ | harr, he⟩
        · rw [hf] at he
          cases he
        · exact ⟨t, q, harr, he⟩

end

theorem patchFunction_list {E : Env} {s s' : State} {p : Word} {b : Bool} (h : patchFunction E s p = .ok (b, s')) :
    s'.gPatchedFunctions = s.gPatchedFunctions := by
  rcases patchFunction_ok h with ⟨_, _, rfl⟩ | ⟨_, _, P, calls, rfl⟩ | ⟨_, A, _, rfl⟩ <;> rfl

theorem restoreFunction_list {E : Env} {s s' : State} {p : Word} {b : Bool}
    (h : restoreFunction E s p = .ok (b, s')) : s'.gPatchedFunctions = s.gPatchedFunctions := by
  rcases restoreFunction_ok h with ⟨_, _, rfl⟩ | ⟨_, _, _, rfl⟩ | ⟨_, _, rfl⟩ <;> rfl

theorem forEach_patchFunction_list {E : Env} {s s' : State} {ps : List Word}
    (h : forEach (patchFunction E) s ps = .ok s') : s'.gPatchedFunctions = s.gPatchedFunctions :=
  forEach_induct (fun t => t.gPatchedFunctions = s.gPatchedFunctions)
    (fun _ _ _ _ _ hs h => (patchFunction_list h).trans hs) rfl h

theorem forEach_restoreFunction_list {E : Env} {s s' : State} {ps : List Word}
    (h : forEach (restoreFunction E) s ps = .ok s') : s'.gPatchedFunctions = s.gPatchedFunctions :=
  forEach_induct (fun t => t.gPatchedFunctions = s.gPatchedFunctions)
    (fun _ _ _ _ _ hs h => (restoreFunction_list h).trans hs) rfl h

/-! ## Adding -/

def recordOf (functionData : FunctionReplacementData) : PatchedFunctionData :=
  if functionData.version = 2 then recordV2 functionData.v2 else recordV3 functionData.v3

theorem recordV2_fresh (d : FunctionReplacementDataV2) : (recordV2 d).isPatched = false ∧
    (recordV2 d).jumpData = 0 ∧ (recordV2 d).jumpToOriginal = 0 := by
  unfold recordV2; simp only; split <;> exact ⟨rfl, rfl, rfl⟩

theorem recordV3_fresh (d : FunctionReplacementDataV3) : (recordV3 d).isPatched = false ∧
    (recordV3 d).jumpData = 0 ∧ (recordV3 d).jumpToOriginal = 0 := by
  unfold recordV3; simp only; split
  · exact ⟨rfl, rfl, rfl⟩
  · exact ⟨rfl, rfl, rfl⟩
  · split <;> exact ⟨rfl, rfl, rfl⟩
  · exact ⟨rfl, rfl, rfl⟩

theorem recordOf_fresh (d : FunctionReplacementData) : (recordOf d).isPatched = false ∧
    (recordOf d).jumpData = 0 ∧ (recordOf d).jumpToOriginal = 0 := by
  unfold recordOf; split
  · exact recordV2_fresh _
  · exact recordV3_fresh _

def constructed (E : Env) (s : State) (d : FunctionReplacementData) : State :=
  s.setObject E.newObject (recordOf d)

theorem makeShared_recordOf (E : Env) (s : State) (d : FunctionReplacementData) :
    (if d.version = 2 then makeSharedV2 E s d.v2 else makeSharedV3 E s d.v3) = makeShared E s (recordOf d) := by
  unfold recordOf makeSharedV2 makeSharedV3
  split <;> rfl

theorem preparePatch_ok {E : Env} {s s' : State} {fd : Option FunctionReplacementData} {res : AddResult}
    {o : Option Word} (h : preparePatch E s fd = .ok (res, o, s')) :
    (o = none ∧ res.status ≠ .success ∧ (s' = s ∨ ∃ d s₁, fd = some d ∧
      allocateDataForJumps E (constructed E s d) E.newObject = (false, s₁) ∧ s' = destroy s₁ E.newObject)) ∨
    (o = some E.newObject ∧ res.status = .success ∧ E.newObject ≠ 0 ∧ ∃ d b s₁, fd = some d ∧
      res.outHasBeenPatched = some b ∧ res.outHandle = some E.newObject ∧
      allocateDataForJumps E (constructed E s d) E.newObject = (true, s₁) ∧
      patchFunction E s₁ E.newObject = .ok (b, s')) := by
  unfold preparePatch at h
  split at h
  · cases h; exact .inl ⟨rfl, by simp, .inl rfl⟩
  rename_i d
  split at h
  · cases h; exact .inl ⟨rfl, by simp, .inl rfl⟩
  rw [makeShared_recordOf] at h
  unfold makeShared at h
  by_cases h0 : E.newObject = 0
  · rw [if_pos h0] at h; cases h; exact .inl ⟨rfl, by simp, .inl rfl⟩
  rw [if_neg h0] at h
  cases ha : allocateDataForJumps E (s.setObject E.newObject (recordOf d)) E.newObject with
  | mk ok s₁ =>
    rw [ha] at h
    cases ok with
    | false => cases h; exact .inl ⟨rfl, by simp, .inr ⟨d, s₁, rfl, ha, rfl⟩⟩
    | true =>
      simp only at h
      split at h
      · cases h
      · rename_i b s₂ hp
        cases h
        exact .inr ⟨rfl, rfl, h0, d, b, s₁, rfl, rfl, rfl, ha, hp⟩

theorem fpAddFunctionPatch_ok {E : Env} {s s' : State} {fd : Option FunctionReplacementData} {res : AddResult}
    (h : fpAddFunctionPatch E s fd = .ok (res, s')) :
    (res.status ≠ .success ∧ (s' = s ∨ ∃ d s₁, fd = some d ∧
      allocateDataForJumps E (constructed E s d) E.newObject = (false, s₁) ∧ s' = destroy s₁ E.newObject)) ∨
    (res.status = .success ∧ E.newObject ≠ 0 ∧ ∃ d b s₁ s₂, fd = some d ∧
      allocateDataForJumps E (constructed E s d) E.newObject = (true, s₁) ∧
      patchFunction E s₁ E.newObject = .ok (b, s₂) ∧ s' = publishPatch s₂ E.newObject) := by
  unfold fpAddFunctionPatch at h
  split at h
  · cases h
  · rename_i res' s₁ hp
    cases h
    rcases preparePatch_ok hp with ⟨_, hres, hs⟩ | ⟨ho, _⟩
    · exact .inl ⟨hres, hs⟩
    · cases ho
  · rename_i res' p s₁ hp
    cases h
    rcases preparePatch_ok hp with ⟨ho, _⟩ | ⟨ho, hres, h0, d, b, s₀, hd, _, _, ha, hpatch⟩
    · cases ho
    · cases ho; exact .inr ⟨hres, h0, d, b, s₀, s₁, hd, ha, hpatch, rfl⟩

theorem fpAddFunctionPatch_version {E : Env} {s s' : State} {d : FunctionReplacementData} {res : AddResult}
    (h : fpAddFunctionPatch E s (some d) = .ok (res, s')) (hres : res.status = .success) :
    ¬ (d.version < 2 ∨ 3 < d.version) := by
  intro hv
  unfold fpAddFunctionPatch preparePatch at h
  simp only [hv, if_true] at h
  cases h
  cases hres

/-- Once the record has its buffers, a call that returns succeeds. -/
theorem fpAddFunctionPatch_success {E : Env} {s s' s₁ : State} {d : FunctionReplacementData} {res : AddResult}
    (hv : ¬ (d.version < 2 ∨ 3 < d.version)) (h0 : E.newObject ≠ 0)
    (ha : allocateDataForJumps E (constructed E s d) E.newObject = (true, s₁))
    (h : fpAddFunctionPatch E s (some d) = .ok (res, s')) : res.status = .success := by
  unfold constructed at ha
  unfold fpAddFunctionPatch preparePatch at h
  simp only [makeShared_recordOf, hv, if_false, makeShared, h0, ha] at h
  cases hp : patchFunction E s₁ E.newObject with
  | error e =>
    simp only [hp] at h
    cases h
  | ok r =>
    simp only [hp] at h
    cases h
    rfl

/-- A call fails where `PatchFunction` fails for the new record. -/
theorem fpAddFunctionPatch_error_iff {E : Env} {s : State} {fd : Option FunctionReplacementData} {e : String} :
    fpAddFunctionPatch E s fd = .error e ↔ ∃ d s₁, fd = some d ∧ ¬ (d.version < 2 ∨ 3 < d.version) ∧
      E.newObject ≠ 0 ∧ allocateDataForJumps E (constructed E s d) E.newObject = (true, s₁) ∧
      patchFunction E s₁ E.newObject = .error e := by
  unfold fpAddFunctionPatch preparePatch
  cases fd with
  | none => simp
  | some d =>
    simp only [makeShared_recordOf, Option.some.injEq, exists_eq_left', exists_and_left]
    by_cases hv : d.version < 2 ∨ 3 < d.version
    · simp only [hv, if_true, not_true_eq_false, false_and, reduceCtorEq]
    simp only [hv, if_false, not_false_eq_true, true_and]
    unfold makeShared
    by_cases h0 : E.newObject = 0
    · simp only [h0, if_true, ne_eq, not_true_eq_false, false_and, reduceCtorEq]
    simp only [h0, if_false, ne_eq, not_false_eq_true, true_and]
    show _ ↔ ∃ s₁, allocateDataForJumps E (s.setObject E.newObject (recordOf d)) E.newObject = (true, s₁) ∧ _
    cases allocateDataForJumps E (s.setObject E.newObject (recordOf d)) E.newObject with
    | mk b s₁ =>
      cases b with
      | false => simp
      | true => cases hp : patchFunction E s₁ E.newObject <;> simp [hp]

/-- A state that differs in the jump heap's blocks and in the pointers of one record. -/
def BuffersDiffer (s s' : State) (p : Word) : Prop :=
  ∃ H jd jo n, H.words = s.jumpHeap.words ∧ s' = { s with jumpHeap := H }.setObject p { s.objects p with
    jumpData := jd, jumpToOriginal := jo, jumpDataSize := n }

theorem BuffersDiffer.refl (s : State) (p : Word) : BuffersDiffer s s p :=
  ⟨s.jumpHeap, _, _, _, rfl, (setObject_self s p).symm⟩

theorem BuffersDiffer.trans {s s₁ s₂ : State} {p : Word} (h₁ : BuffersDiffer s s₁ p)
    (h₂ : BuffersDiffer s₁ s₂ p) : BuffersDiffer s s₂ p := by
  obtain ⟨H₁, jd₁, jo₁, n₁, w₁, rfl⟩ := h₁
  obtain ⟨H₂, jd₂, jo₂, n₂, w₂, rfl⟩ := h₂
  refine ⟨H₂, jd₂, jo₂, n₂, w₂.trans w₁, ?_⟩
  simp only [State.setObject, Function.update_self, Function.update_idem]

theorem memAllocFromExpHeapEx_words (E : Env) (H : JumpHeap) (n : Nat) :
    (memAllocFromExpHeapEx E H n).2.words = H.words := by
  unfold memAllocFromExpHeapEx; simp only; split <;> rfl

theorem allocateJumpData_frame (E : Env) (s : State) (p : Word) :
    BuffersDiffer s (allocateJumpData E s p).2 p := by
  unfold allocateJumpData
  simp only
  split
  · exact ⟨_, _, _, _, memAllocFromExpHeapEx_words _ _ _, rfl⟩
  · exact .refl s p

theorem allocateJumpToOriginal_frame (E : Env) (s : State) (p : Word) :
    BuffersDiffer s (allocateJumpToOriginal E s p).2 p :=
  ⟨_, (s.objects p).jumpData, _, (s.objects p).jumpDataSize, memAllocFromExpHeapEx_words _ _ _, rfl⟩

theorem allocateDataForJumps_frame {E : Env} {s s' : State} {p : Word} {b : Bool}
    (h : allocateDataForJumps E s p = (b, s')) : BuffersDiffer s s' p := by
  unfold allocateDataForJumps at h
  split at h
  · cases h; exact .refl s p
  have h₁ := allocateJumpData_frame E s p
  split at h
  · rename_i ha; cases h; rw [ha] at h₁; exact h₁
  · rename_i s₁ ha
    rw [ha] at h₁
    have h₂ := allocateJumpToOriginal_frame E s₁ p
    rw [h] at h₂
    exact h₁.trans h₂

theorem freeBuffer_words (H : JumpHeap) (a : Word) : (freeBuffer H a).words = H.words := by
  unfold freeBuffer; split <;> rfl

theorem destroy_frame (s : State) (p : Word) : BuffersDiffer s (destroy s p) p :=
  ⟨_, 0, 0, (s.objects p).jumpDataSize, (freeBuffer_words _ _).trans (freeBuffer_words _ _), rfl⟩

/-! ## Removing -/

def sameAddress (s : State) (h : Word) (ps : List Word) : List Word :=
  ps.filter fun q => (s.objects q).realPhysicalFunctionAddress = (s.objects h).realPhysicalFunctionAddress

section
variable (s : State) (h : Word)

theorem removeScan_before (rest pre : List Word) (sc : RemoveScan) (hpre : h ∉ pre) (hf : sc.found = false) :
    removeScan s h sc (pre ++ rest) =
      removeScan s h { sc with erasePosition := sc.erasePosition + pre.length } rest := by
  induction pre generalizing sc with
  | nil => rfl
  | cons q pre ih =>
    rw [List.mem_cons, not_or] at hpre
    rw [List.cons_append, removeScan, if_neg (Ne.symm hpre.1), hf, if_neg Bool.false_ne_true, ih _ hpre.2 rfl]
    simp only [List.length_cons]
    rw [Nat.add_assoc, Nat.add_comm 1]

theorem removeScan_after (n : Nat) (post ts : List Word) (hpost : h ∉ post) :
    removeScan s h ⟨ts, true, n, h⟩ post = ⟨ts ++ sameAddress s h post, true, n, h⟩ := by
  induction post generalizing ts with
  | nil => simp [removeScan, sameAddress]
  | cons q post ih =>
    rw [List.mem_cons, not_or] at hpost
    rw [removeScan, if_neg (Ne.symm hpost.1), if_pos rfl]
    by_cases ha : (s.objects q).realPhysicalFunctionAddress = (s.objects h).realPhysicalFunctionAddress
    · rw [if_pos ha, ih _ hpost.2]
      simp [sameAddress, ha]
    · rw [if_neg ha, ih _ hpost.2]
      simp [sameAddress, ha]

theorem removeScan_not_mem {ps : List Word} (hp : h ∉ ps) : (removeScan s h {} ps).found = false := by
  have := removeScan_before s h [] ps {} hp rfl
  rw [List.append_nil] at this
  rw [this]; rfl

theorem removeScan_split {pre post : List Word} (hpre : h ∉ pre) (hpost : h ∉ post) :
    removeScan s h {} (pre ++ h :: post) =
      { toBeTempRestored := if (s.objects h).isPatched then sameAddress s h post else []
        found := true
        erasePosition := pre.length
        toBeRemoved := h } := by
  rw [removeScan_before s h _ pre {} hpre rfl, removeScan, if_pos rfl]
  simp only
  cases hp : (s.objects h).isPatched with
  | false => simp
  | true =>
    simp only [Bool.not_true, Bool.false_eq_true, if_false, if_true]
    rw [removeScan_after s h _ post _ hpost]
    simp

end

theorem nodup_split {h : Word} {pre post : List Word} (hn : (pre ++ h :: post).Nodup) : h ∉ pre ∧ h ∉ post := by
  rw [List.nodup_append, List.nodup_cons] at hn
  exact ⟨fun hp => hn.2.2 h hp h (List.mem_cons_self ..) rfl, hn.2.1.1⟩

theorem nodup_split_unique {h : Word} {pre post pre' post' : List Word} (hn : (pre ++ h :: post).Nodup)
    (he : pre ++ h :: post = pre' ++ h :: post') : pre' = pre ∧ post' = post := by
  have hn' := hn
  rw [he] at hn'
  obtain ⟨hpre, _, hpost⟩ :=
    (List.append_cons_inj_of_notMem (nodup_split hn').1 (nodup_split hn').2).mp he.symm
  exact ⟨hpre, hpost⟩

/-- A loop comes to each record once. -/
theorem Arrives.unique {f : State → Word → Except String (Bool × State)} {s t t' : State} {ps : List Word} {p : Word}
    (hn : ps.Nodup) (h : Arrives f s ps t p) (h' : Arrives f s ps t' p) : t = t' := by
  obtain ⟨pre, post, rfl, hpre⟩ := h
  obtain ⟨pre', post', hl, hpre'⟩ := h'
  obtain ⟨rfl, _⟩ := nodup_split_unique hn hl
  rw [hpre] at hpre'
  cases hpre'
  rfl

/-- The outcomes of `FPRemoveFunctionPatch` on a list of distinct handles. -/
theorem fpRemoveFunctionPatch_ok {E : Env} {s s' : State} {h : Word} {st : FunctionPatcherStatus}
    {pre post : List Word} (hl : s.gPatchedFunctions = pre ++ h :: post) (hn : s.gPatchedFunctions.Nodup)
    (hrun : fpRemoveFunctionPatch E s h = .ok (st, s')) :
    st = .success ∧
    (((s.objects h).isPatched = false ∧ s' = destroy { s with gPatchedFunctions := pre ++ post } h) ∨
     ((s.objects h).isPatched = true ∧
      ∃ s₁, forEach (restoreFunction E) s ((sameAddress s h post).reverse ++ [h]) = .ok s₁ ∧
        (((s₁.objects h).isPatched = false ∧ s' = destroy { s₁ with gPatchedFunctions := pre ++ post } h) ∨
         ((s₁.objects h).isPatched = true ∧
          ∃ s₂, forEach (patchFunction E) { s₁ with gPatchedFunctions := pre ++ post } (sameAddress s h post) =
              .ok s₂ ∧ s' = destroy s₂ h)))) := by
  rw [hl] at hn
  obtain ⟨hpre, hpost⟩ := nodup_split hn
  have herase : (pre ++ h :: post).eraseIdx pre.length = pre ++ post := by
    rw [List.eraseIdx_append_of_length_le (Nat.le_refl _), Nat.sub_self]; rfl
  unfold fpRemoveFunctionPatch at hrun
  rw [hl, removeScan_split s h hpre hpost] at hrun
  simp only [Bool.not_true, Bool.false_eq_true, if_false] at hrun
  cases hp : (s.objects h).isPatched with
  | false =>
    simp only [hp, Bool.false_eq_true, if_false, hl, herase] at hrun
    cases hrun
    exact ⟨rfl, .inl ⟨rfl, rfl⟩⟩
  | true =>
    simp only [hp, if_true] at hrun
    split at hrun
    · cases hrun
    rename_i s₁ h₁
    rw [forEach_restoreFunction_list h₁, hl, herase] at hrun
    cases hp₁ : (s₁.objects h).isPatched with
    | false =>
      simp only [hp₁, Bool.false_eq_true, if_false] at hrun
      cases hrun
      exact ⟨rfl, .inr ⟨rfl, s₁, h₁, .inl ⟨hp₁, rfl⟩⟩⟩
    | true =>
      simp only [hp₁, if_true] at hrun
      split at hrun
      · cases hrun
      · rename_i s₂ h₂
        cases hrun
        exact ⟨rfl, .inr ⟨rfl, s₁, h₁, .inr ⟨hp₁, s₂, h₂, rfl⟩⟩⟩

/-- A removal fails in one of its two loops. -/
theorem fpRemoveFunctionPatch_error_iff {E : Env} {s : State} {h : Word} {e : String} {pre post : List Word}
    (hl : s.gPatchedFunctions = pre ++ h :: post) (hn : s.gPatchedFunctions.Nodup) :
    fpRemoveFunctionPatch E s h = .error e ↔ (s.objects h).isPatched = true ∧
      (forEach (restoreFunction E) s ((sameAddress s h post).reverse ++ [h]) = .error e ∨
       ∃ s₁, forEach (restoreFunction E) s ((sameAddress s h post).reverse ++ [h]) = .ok s₁ ∧
        (s₁.objects h).isPatched = true ∧
        forEach (patchFunction E) { s₁ with gPatchedFunctions := pre ++ post } (sameAddress s h post) = .error e) := by
  rw [hl] at hn
  obtain ⟨hpre, hpost⟩ := nodup_split hn
  have herase : (pre ++ h :: post).eraseIdx pre.length = pre ++ post := by
    rw [List.eraseIdx_append_of_length_le (Nat.le_refl _), Nat.sub_self]; rfl
  unfold fpRemoveFunctionPatch
  rw [hl, removeScan_split s h hpre hpost]
  simp only [Bool.not_true, Bool.false_eq_true, if_false]
  cases hp : (s.objects h).isPatched with
  | false => simp [hp]
  | true =>
    simp only [if_true, true_and]
    cases h₁ : forEach (restoreFunction E) s ((sameAddress s h post).reverse ++ [h]) with
    | error e' => simp
    | ok s₁ =>
      simp only [forEach_restoreFunction_list h₁, hl, herase]
      cases hp₁ : (s₁.objects h).isPatched with
      | false => simp [hp₁]
      | true =>
        cases h₂ : forEach (patchFunction E) { s₁ with gPatchedFunctions := pre ++ post } (sameAddress s h post) with
        | error e' => simp [hp₁, h₂]
        | ok s₂ => simp [hp₁, h₂]

theorem fpRemoveFunctionPatch_not_mem {E : Env} {s : State} {h : Word} (hm : h ∉ s.gPatchedFunctions) :
    fpRemoveFunctionPatch E s h = .ok (.patchNotFound, s) := by
  simp only [fpRemoveFunctionPatch, removeScan_not_mem s h hm, Bool.not_false, if_true]

end FunctionPatcher
