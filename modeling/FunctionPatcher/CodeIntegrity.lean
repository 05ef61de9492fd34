import FunctionPatcher.Dispatch
import FunctionPatcher.RemovalFrame
import FunctionPatcher.Unload

/-!
# The generated code over whole runs

Each listed record owns its blocks of the jump heap, and nothing but its own
generators stores into them. In runs with registrations, removals, passes over
the list and unloads of whole chains, the code of the patched records is
therefore that of their last application, and the records of each address are
stacked in list order.
-/

namespace FunctionPatcher

/-! ## Blocks apart -/

theorem BlocksApart.symm {b c : Word × Nat} (h : BlocksApart b c) : BlocksApart c b := fun x hc hb => h x hb hc

def HeapApart (s : State) : Prop := s.jumpHeap.blocks.Pairwise BlocksApart

section
variable {E : Env} {s s' : State} {p : Word}

theorem memAllocFromExpHeapEx_apart {H : JumpHeap} (hE : E.AllocatesApart) (h : H.blocks.Pairwise BlocksApart) (n : Nat) :
    (memAllocFromExpHeapEx E H n).2.blocks.Pairwise BlocksApart := by
  by_cases ha : E.memAllocFromExpHeapEx H.blocks n = 0
  · rw [memAllocFromExpHeapEx_zero ha]
    exact h
  · rw [memAllocFromExpHeapEx_block rfl ha]
    refine List.pairwise_cons.mpr ⟨?_, h⟩
    intro b hb
    exact hE _ _ ha b hb

theorem freeBuffer_apart {H : JumpHeap} (h : H.blocks.Pairwise BlocksApart) (a : Word) :
    (freeBuffer H a).blocks.Pairwise BlocksApart := by
  unfold freeBuffer
  split
  · exact h.sublist List.eraseP_sublist
  · exact h

theorem HeapApart.allocate (h : HeapApart s) (hE : E.AllocatesApart) : HeapApart (allocateDataForJumps E s p).2 := by
  have h₁ : HeapApart (allocateJumpData E s p).2 := by
    unfold allocateJumpData
    simp only
    split
    · exact memAllocFromExpHeapEx_apart hE h 15
    · exact h
  unfold allocateDataForJumps
  split
  · exact h
  · split
    · rename_i ha
      rw [ha] at h₁
      exact h₁
    · rename_i ha
      rw [ha] at h₁
      exact memAllocFromExpHeapEx_apart hE h₁ 5

theorem HeapApart.destroy (h : HeapApart s) : HeapApart (destroy s p) := freeBuffer_apart (freeBuffer_apart h _) _

theorem HeapApart.untouched (h : HeapApart s) (hu : HeapUntouched s s') : HeapApart s' := by
  unfold HeapApart
  rw [hu.blocks]
  exact h

/-- The buffers of all listed records lie apart from one another. -/
theorem HeapAccounted.buffers_apart (hs : HeapAccounted s) (h : HeapApart s) : (ownedBlocks s).Pairwise BlocksApart :=
  (hs.owned.pairwise_iff (fun hb => hb.symm)).mp h

end

/-! ## Intact code -/

/-- The site of the function that a record is applied to. -/
def Site.of (T : Site) (r : PatchedFunctionData) : Site :=
  { T with effective := r.realEffectiveFunctionAddress, physical := r.realPhysicalFunctionAddress }

/-- What the last application of a record has left is all still there. -/
structure CodeIntact (T : Site) (U : Word) (s : State) (p : Word) : Prop where
  generated : Generated (T.of (s.objects p)) U s.jumpHeap.words (s.objects p)
  jump : (s.objects p).replaceWithInstruction = jumpInstruction (s.objects p)
  slot : s.replaceCalls (s.objects p).realCallFunctionAddressPtr = (s.objects p).jumpToOriginal

/-- The records `ps` among which code stays intact: their buffers are apart and their
`replaceCall` slots distinct. -/
structure Separate (s : State) (ps : List Word) : Prop where
  buffers : (ps.flatMap fun q => buffersOf (s.objects q)).Pairwise BlocksApart
  replaceCalls : (ps.map fun q => (s.objects q).realCallFunctionAddressPtr).Nodup

def AllIntact (T : Site) (U : Word) (s : State) (ps : List Word) : Prop :=
  ∀ p ∈ ps, (s.objects p).isPatched = true → CodeIntact T U s p

section
variable {T : Site} {U : Word} {E : Env} {s s' : State} {p q : Word} {ps : List Word}

theorem Separate.own (h : Separate s ps) (hp : p ∈ ps) : (buffersOf (s.objects p)).Pairwise BlocksApart :=
  (List.pairwise_flatMap.mp h.buffers).1 p hp

theorem Separate.others (h : Separate s ps) (hp : p ∈ ps) (hq : q ∈ ps) (hne : q ≠ p) {b c : Word × Nat}
    (hb : b ∈ buffersOf (s.objects q)) (hc : c ∈ buffersOf (s.objects p)) : BlocksApart b c := by
  have : Std.Symm fun p q => ∀ b ∈ buffersOf (s.objects p), ∀ c ∈ buffersOf (s.objects q), BlocksApart b c :=
    ⟨fun _ _ h b hb c hc => (h c hc b hb).symm⟩
  exact (List.pairwise_flatMap.mp h.buffers).2.forall hq hp hne b hb c hc

theorem Separate.slots (h : Separate s ps) (hp : p ∈ ps) (hq : q ∈ ps) (hne : q ≠ p) :
    (s.objects q).realCallFunctionAddressPtr ≠ (s.objects p).realCallFunctionAddressPtr :=
  fun e => hne (List.inj_on_of_nodup_map h.replaceCalls hq hp e)

theorem CodeIntact.congr (h : CodeIntact T U s q) (ho : s'.objects q = s.objects q)
    (hw : ∀ b ∈ buffersOf (s.objects q), ∀ x, inBlock b x → s'.jumpHeap.words x = s.jumpHeap.words x)
    (hc : s'.replaceCalls (s.objects q).realCallFunctionAddressPtr =
      s.replaceCalls (s.objects q).realCallFunctionAddressPtr) : CodeIntact T U s' q := by
  constructor
  · rw [ho]
    exact h.generated.congr hw
  · rw [ho]
    exact h.jump
  · rw [ho, hc]
    exact h.slot

/-- **Applying one record** keeps the code of the others and makes its own. -/
theorem AllIntact.apply {A : Application} {w₀ w₁ : Word} (h : AllIntact T U s ps) (hsep : Separate s ps) (hp : p ∈ ps)
    (hm : E.fpTargetProcessWiiUMenu = T.fpTargetProcessWiiUMenu) (hg : E.fpTargetProcessGame = T.fpTargetProcessGame)
    (hA : A.Valid E s p) (hcode : UpidCode w₀ w₁ U) (hlive : UpidIntact E s w₀ w₁) :
    AllIntact T U (A.result E s p) ps := by
  have hself := A.result_objects_self E s p
  have hown : (buffersOf (A.record s p)).Pairwise BlocksApart := hsep.own hp
  have hgen : Generated (T.of (A.record s p)) U (generatedWords E s (A.record s p)) (A.record s p) :=
    generated_of_application hm hg hA rfl hcode hlive hown
  intro q hq hqp
  by_cases hne : q = p
  · subst hne
    constructor
    · rw [hself]
      exact hgen
    · rw [hself]
      rfl
    · rw [hself]
      exact Function.update_self ..
  · rw [A.result_objects_ne E s hne] at hqp
    have hout : ∀ b ∈ buffersOf (s.objects q), ∀ x, inBlock b x → ∀ c ∈ buffersOf (A.record s p), ¬ inBlock c x :=
      fun b hb x hx c hc => hsep.others hp hq hne hb hc x hx
    refine (h q hq hqp).congr (A.result_objects_ne E s hne) ?_ (Function.update_of_ne (hsep.slots hp hq hne) ..)
    intro b hb x hx
    apply generatedWords_of_not_inBlock
    · exact hout b hb x hx _ hgen.toOriginal_mem
    · intro h0
      exact hout b hb x hx _ (mem_buffersOf.mpr ⟨h0, .inr rfl⟩)
    · intro hn
      exact (hgen.allocated.jumpData hn).1

theorem patchFunction_keeps {b : Bool} (hrun : patchFunction E s p = .ok (b, s')) (hq : (s.objects q).isPatched = true) :
    s'.objects q = s.objects q := by
  rcases patchFunction_ok hrun with ⟨_, _, rfl⟩ | ⟨_, _, P, calls, rfl⟩ | ⟨_, A, hA, rfl⟩
  · rfl
  · rfl
  · apply A.result_objects_ne
    rintro rfl
    rw [hA.unpatched] at hq
    cases hq

theorem forEach_patchFunction_keeps {qs : List Word} (hrun : forEach (patchFunction E) s qs = .ok s')
    (hq : (s.objects q).isPatched = true) : s'.objects q = s.objects q := by
  refine forEach_induct (fun t => t.objects q = s.objects q) ?_ rfl hrun
  intro t r b t' _ ht hf
  rw [patchFunction_keeps hf (ht ▸ hq), ht]

/-- What a record owns: its blocks of the jump heap and its `replaceCall` slot. -/
def sameOwned (r r' : PatchedFunctionData) : Prop :=
  buffersOf r' = buffersOf r ∧ r'.realCallFunctionAddressPtr = r.realCallFunctionAddressPtr

theorem patchFunction_owned {b : Bool} (hrun : patchFunction E s p = .ok (b, s')) (q : Word) :
    sameOwned (s.objects q) (s'.objects q) := by
  rcases patchFunction_ok hrun with ⟨_, _, rfl⟩ | ⟨_, _, P, calls, rfl⟩ | ⟨_, A, hA, rfl⟩
  · exact ⟨rfl, rfl⟩
  · exact ⟨rfl, rfl⟩
  · by_cases hq : q = p
    · subst hq
      rw [A.result_objects_self]
      exact ⟨rfl, rfl⟩
    · rw [A.result_objects_ne E s hq]
      exact ⟨rfl, rfl⟩

theorem forEach_patchFunction_owned {qs : List Word} (hrun : forEach (patchFunction E) s qs = .ok s') (q : Word) :
    sameOwned (s.objects q) (s'.objects q) := by
  refine forEach_induct (fun t => sameOwned (s.objects q) (t.objects q)) ?_ ⟨rfl, rfl⟩ hrun
  intro t r b t' _ ht hf
  obtain ⟨hb, hs⟩ := patchFunction_owned hf q
  exact ⟨hb.trans ht.1, hs.trans ht.2⟩

theorem Separate.congr (h : Separate s' ps) (ho : ∀ q ∈ ps, sameOwned (s.objects q) (s'.objects q)) : Separate s ps := by
  obtain ⟨hb, hs⟩ := h
  rw [List.flatMap_congr fun q hq => (ho q hq).1] at hb
  rw [List.map_congr_left fun q hq => (ho q hq).2] at hs
  exact ⟨hb, hs⟩

/-- Clearing flags and dropping records leaves the rest intact. -/
theorem AllIntact.cleared {qs : List Word} (h : AllIntact T U s ps) (hsub : ∀ q ∈ qs, q ∈ ps)
    (ho : ∀ q ∈ qs, s'.objects q = s.objects q ∨ (s'.objects q).isPatched = false)
    (hw : s'.jumpHeap.words = s.jumpHeap.words) (hc : s'.replaceCalls = s.replaceCalls) : AllIntact T U s' qs := by
  intro q hq hqp
  rcases ho q hq with e | e
  · rw [e] at hqp
    refine (h q (hsub q hq) hqp).congr e ?_ (congrFun hc _)
    intro b _ x _
    rw [hw]
  · rw [e] at hqp
    cases hqp

end

/-! ## Runs -/

/-- What the clients promise: slots of their own, and no patch on the code of `OSGetUPID`. -/
structure Conforms (T : Site) (s : State) : Prop where
  replaceCalls : (s.gPatchedFunctions.map fun p => (s.objects p).realCallFunctionAddressPtr).Nodup
  osGetUPID : ∀ p ∈ s.gPatchedFunctions, (s.objects p).isPatched = true →
    (s.objects p).realPhysicalFunctionAddress ≠ T.mmu T.osGetUPID ∧
    (s.objects p).realPhysicalFunctionAddress ≠ T.mmu (T.osGetUPID + 4)

/-- The unload clears all patched records of an address or none. -/
def UnloadsWhole (s : State) (module : Word) : Prop :=
  ∀ a, (∀ p ∈ s.gPatchedFunctions, patchedAt s a p = true → keepsFlag s module p = true) ∨
    ∀ p ∈ s.gPatchedFunctions, patchedAt s a p = true → keepsFlag s module p = false

/-- Where nothing is patched, what stands in memory is the original. -/
def originalIn (s : State) (original : Word → Word) (a : Word) : Word :=
  if (patchesAt s a).isEmpty then s.mem a else original a

structure Operational (T : Site) (U : Word) (o : Word → Word) (s : State) : Prop where
  disciplined : Disciplined o s
  accounted : HeapAccounted s
  apart : HeapApart s
  conforms : Conforms T s
  intact : AllIntact T U s s.gPatchedFunctions
  upid : UpidCode (o (T.mmu T.osGetUPID)) (o (T.mmu (T.osGetUPID + 4))) U

/-! ## The stack at one address -/

theorem patchesAt_eq (s : State) (a : Word) :
    patchesAt s a = (s.gPatchedFunctions.filter (patchedAt s a)).map s.objects := by
  unfold patchesAt Overlay.layersAt State.records
  rw [List.filter_map]
  rfl

theorem patchesAt_eq_nil {s : State} {a : Word} (h : ∀ p ∈ s.gPatchedFunctions, patchedAt s a p = false) :
    patchesAt s a = [] := by
  rw [patchesAt_eq, List.filter_eq_nil_iff.mpr]
  · rfl
  · intro p hp
    rw [h p hp]
    exact Bool.false_ne_true

theorem patchedAt_eq_false {s : State} {a p : Word}
    (h : (s.objects p).isPatched = true → (s.objects p).realPhysicalFunctionAddress ≠ a) : patchedAt s a p = false := by
  rw [← Bool.not_eq_true, patchedAt_iff]
  exact fun hp => h hp.1 hp.2

theorem Disciplined.unpatched_mem {o : Word → Word} {s : State} {a : Word} (h : Disciplined o s)
    (ha : ∀ p ∈ s.gPatchedFunctions, patchedAt s a p = false) : s.mem a = o a := by
  have hs := h.stacked a
  rwa [show Overlay.layersAt _ _ s.records a = [] from patchesAt_eq_nil ha] at hs

section
variable {T : Site} {U : Word} {E : Env} {o : Word → Word} {s s' : State} {p : Word} {ps : List Word}

theorem Conforms.spared (h : Conforms T s) : (∀ p ∈ s.gPatchedFunctions, patchedAt s (T.mmu T.osGetUPID) p = false) ∧
    ∀ p ∈ s.gPatchedFunctions, patchedAt s (T.mmu (T.osGetUPID + 4)) p = false :=
  ⟨fun p hp => patchedAt_eq_false fun hpp => (h.osGetUPID p hp hpp).1,
    fun p hp => patchedAt_eq_false fun hpp => (h.osGetUPID p hp hpp).2⟩

theorem Conforms.intact (h : Conforms T s) (hd : Disciplined o s) (hE : T.Admits E) :
    UpidIntact E s (o (T.mmu T.osGetUPID)) (o (T.mmu (T.osGetUPID + 4))) := by
  unfold UpidIntact load
  rw [hE.mmu, hE.osGetUPID, hd.unpatched_mem h.spared.1, hd.unpatched_mem h.spared.2]
  exact ⟨rfl, rfl⟩

/-- The promises of a later state hold of an earlier one of the same pass. -/
theorem Conforms.before (h : Conforms T s') (hl : s'.gPatchedFunctions = s.gPatchedFunctions)
    (ho : ∀ q, sameOwned (s.objects q) (s'.objects q))
    (hk : ∀ q, (s.objects q).isPatched = true → s'.objects q = s.objects q) : Conforms T s := by
  constructor
  · have := h.replaceCalls
    rw [hl, List.map_congr_left fun q _ => (ho q).2] at this
    exact this
  · intro q hq hqp
    have := h.osGetUPID q (hl ▸ hq)
    rw [hk q hqp] at this
    exact this hqp

theorem separate_of (hacc : HeapAccounted s) (hap : HeapApart s) (hun : Conforms T s) :
    Separate s s.gPatchedFunctions := ⟨hacc.buffers_apart hap, hun.replaceCalls⟩

/-! ## Passes -/

theorem AllIntact.patch {b : Bool} (hk : AllIntact T U s ps) (hp : p ∈ ps) (hsep : Separate s ps)
    (hE : T.Admits E) (hcode : UpidCode (o (T.mmu T.osGetUPID)) (o (T.mmu (T.osGetUPID + 4))) U)
    (hlive : UpidIntact E s (o (T.mmu T.osGetUPID)) (o (T.mmu (T.osGetUPID + 4))))
    (hrun : patchFunction E s p = .ok (b, s')) : AllIntact T U s' ps := by
  rcases patchFunction_ok hrun with ⟨_, _, rfl⟩ | ⟨_, _, P, calls, rfl⟩ | ⟨_, A, hA, rfl⟩
  · exact hk
  · exact hk.cleared (fun _ hq => hq) (fun _ _ => .inl rfl) rfl rfl
  · exact hk.apply hsep hp hE.menu hE.game hA hcode hlive

theorem Operational.pass (h : Operational T U o s) (hE : T.Admits E) (hm : ∀ p ∈ ps, p ∈ s.gPatchedFunctions)
    (hc : LoopInOrder o E s ps) (hrun : forEach (patchFunction E) s ps = .ok s') (hun : Conforms T s') :
    Operational T U o s' := by
  induction ps generalizing s with
  | nil =>
    cases hrun
    exact h
  | cons p ps ih =>
    obtain ⟨b, s₁, hf, hrun⟩ := forEach_cons hrun
    have hl := patchFunction_list hf
    have hu := patchFunction_untouched hf
    have hp := hm p List.mem_cons_self
    refine ih ⟨h.disciplined.patch hp hc.1 hf, h.accounted.untouched hu, h.apart.untouched hu, ?_, ?_, h.upid⟩
      (fun q hq => by rw [hl]; exact hm q (List.mem_cons_of_mem _ hq)) (hc.2 b s₁ hf) hrun
    · exact hun.before (forEach_patchFunction_list hrun) (forEach_patchFunction_owned hrun)
        fun q => forEach_patchFunction_keeps hrun
    · rw [hl]
      exact h.intact.patch hp (separate_of h.accounted h.apart h.conforms) hE h.upid
        (h.conforms.intact h.disciplined hE) hf

/-! ## Adding -/

theorem Operational.add {fd : Option FunctionReplacementData} {res : AddResult} (h : Operational T U o s)
    (hE : T.Admits E) (hfresh : E.AllocatesFresh) (hapart : E.AllocatesApart) (hnew : E.newObject ∉ s.gPatchedFunctions)
    (hc : ∀ d, fd = some d → AppliesInOrder o E (allocated E s d) E.newObject)
    (hrun : fpAddFunctionPatch E s fd = .ok (res, s')) (hun : Conforms T s') : Operational T U o s' := by
  have hd := h.disciplined.add hnew hc hrun
  have hacc := h.accounted.add hfresh hnew hrun
  have hne : ∀ q ∈ s.gPatchedFunctions, q ≠ E.newObject := fun q hq e => hnew (e ▸ hq)
  rcases fpAddFunctionPatch_ok hrun with ⟨_, rfl | ⟨d, s₁, _, ha, rfl⟩⟩ | ⟨_, _, d, b, s₁, s₂, _, ha, hp, rfl⟩
  · exact h
  · have hframe := allocateDataForJumps_frame ha
    have hl : (destroy s₁ E.newObject).gPatchedFunctions = s.gPatchedFunctions :=
      (destroy_frame _ _).list.trans hframe.list
    have hap : HeapApart s₁ := by
      have : HeapApart (constructed E s d) := h.apart
      have := this.allocate (p := E.newObject) hapart
      rwa [ha] at this
    refine ⟨hd, hacc, hap.destroy, hun, ?_, h.upid⟩
    rw [hl]
    refine h.intact.cleared (fun _ hq => hq) ?_ ?_ ?_
    · intro q hq
      left
      rw [(destroy_frame _ _).objects_ne (hne q hq), hframe.objects_ne (hne q hq)]
      exact setObject_objects_ne _ _ _ (hne q hq)
    · rw [(destroy_frame _ _).words, hframe.words]
      rfl
    · rw [(destroy_frame _ _).replaceCalls, hframe.replaceCalls]
      rfl
  · have hframe := allocateDataForJumps_frame ha
    have hl : s₁.gPatchedFunctions = s.gPatchedFunctions := hframe.list
    have hold : ∀ q ∈ s.gPatchedFunctions, s₁.objects q = s.objects q := by
      intro q hq
      rw [hframe.objects_ne (hne q hq)]
      exact setObject_objects_ne _ _ _ (hne q hq)
    have hunp : (s₁.objects E.newObject).isPatched = false := eq_allocated ha ▸ allocated_unpatched E s d
    have hap₁ : HeapApart s₁ := by
      have : HeapApart (constructed E s d) := h.apart
      have := this.allocate (p := E.newObject) hapart
      rwa [ha] at this
    have hap₂ := hap₁.untouched (patchFunction_untouched hp)
    have hap : HeapApart (publishPatch s₂ E.newObject) := hap₂
    have hlist : (publishPatch s₂ E.newObject).gPatchedFunctions = s.gPatchedFunctions ++ [E.newObject] := by
      show s₂.gPatchedFunctions ++ _ = _
      rw [patchFunction_list hp, hl]
    refine ⟨hd, hacc, hap, hun, ?_, h.upid⟩
    -- the code of the old records and, trivially, of the new one, before `PatchFunction` runs
    have hk₁ : AllIntact T U s₁ (s.gPatchedFunctions ++ [E.newObject]) := by
      have hk := h.intact.cleared (fun _ hq => hq) (fun q hq => .inl (hold q hq)) hframe.words hframe.replaceCalls
      intro q hq hqp
      rcases List.mem_append.mp hq with hq | hq
      · exact hk q hq hqp
      · rw [List.mem_singleton.mp hq, hunp] at hqp
        cases hqp
    have hsep : Separate s₁ (s.gPatchedFunctions ++ [E.newObject]) := by
      have := separate_of hacc hap hun
      rw [hlist] at this
      exact this.congr fun q _ => patchFunction_owned hp q
    have hlive : UpidIntact E s₁ (o (T.mmu T.osGetUPID)) (o (T.mmu (T.osGetUPID + 4))) := by
      have := h.conforms.intact h.disciplined hE
      have hm : s₁.mem = s.mem := hframe.mem_eq
      unfold UpidIntact load at this ⊢
      rw [hm]
      exact this
    have hk := hk₁.patch (List.mem_append_right _ (List.mem_singleton_self _)) hsep hE h.upid hlive hp
    rw [hlist]
    exact hk.cleared (fun _ hq => hq) (fun _ _ => .inl rfl) rfl rfl

/-! ## Removing -/

theorem forEach_restoreFunction_code {ps : List Word} (hrun : forEach (restoreFunction E) s ps = .ok s') :
    s'.jumpHeap = s.jumpHeap ∧ s'.replaceCalls = s.replaceCalls := by
  refine forEach_induct (fun t => t.jumpHeap = s.jumpHeap ∧ t.replaceCalls = s.replaceCalls) ?_ ⟨rfl, rfl⟩ hrun
  intro t q b t' _ ht hf
  rcases restoreFunction_ok hf with ⟨_, _, rfl⟩ | ⟨_, _, _, rfl⟩ | ⟨_, _, rfl⟩
  · exact ht
  · exact ht
  · exact ht

/-- Stacked records are restored one and all, the one to remove included. -/
theorem Disciplined.restores_removed {h : Word} {pre post : List Word} {s₁ : State} (hd : Disciplined o s)
    (hl : s.gPatchedFunctions = pre ++ h :: post) (hp : (s.objects h).isPatched = true) (hc : RemovesInOrder E s h)
    (hrun : forEach (restoreFunction E) s ((sameAddress s h post).reverse ++ [h]) = .ok s₁) :
    (s₁.objects h).isPatched = false := by
  have hm : h ∈ s.gPatchedFunctions := by rw [hl]; simp
  obtain ⟨hr, ht⟩ := hc hm hp
  have hsplit := restoredBy_split hl hd.nodup hp
  have hsame : (sameAddress s h (h :: post)).reverse = (sameAddress s h post).reverse ++ [h] := by simp [sameAddress]
  rw [← hsame] at hrun
  obtain ⟨hsucc, _⟩ := hd.unwind hr hl (fun q hq => ht q (by
    rw [hsplit, ← hsame]
    exact List.mem_reverse.mpr hq)) hrun
  obtain ⟨m, rfl⟩ := restores_effect hsucc hrun
  simp [sameAddress]

theorem Operational.remove {h : Word} {st : FunctionPatcherStatus} (hop : Operational T U o s)
    (hc : RemovesInOrder E s h) (hrun : fpRemoveFunctionPatch E s h = .ok (st, s')) (hun : Conforms T s') :
    Operational T U o s' := by
  by_cases hm : h ∈ s.gPatchedFunctions
  · obtain ⟨pre, post, hl⟩ := List.append_of_mem hm
    obtain ⟨_, hd', hl', ho⟩ := hop.disciplined.remove hl hc hrun
    have hne : ∀ q ∈ pre ++ post, q ≠ h := by
      have hn := hop.disciplined.nodup
      rw [hl] at hn
      intro q hq e
      rw [e] at hq
      exact (List.mem_append.mp hq).elim (nodup_split hn).1 (nodup_split hn).2
    have hcode : s'.jumpHeap.words = s.jumpHeap.words ∧ s'.replaceCalls = s.replaceCalls ∧ HeapApart s' := by
      obtain ⟨_, ⟨_, rfl⟩ | ⟨hp, s₁, h₁, hcase⟩⟩ := fpRemoveFunctionPatch_ok hl hop.disciplined.nodup hrun
      · have hap : HeapApart { s with gPatchedFunctions := pre ++ post } := hop.apart
        exact ⟨(destroy_frame _ _).words, (destroy_frame _ _).replaceCalls, hap.destroy⟩
      · have hp₁ := hop.disciplined.restores_removed hl hp hc h₁
        obtain ⟨hheap, hcalls⟩ := forEach_restoreFunction_code h₁
        rcases hcase with ⟨_, rfl⟩ | ⟨hp₁', _⟩
        · have hap : HeapApart { s₁ with gPatchedFunctions := pre ++ post } := by
            unfold HeapApart
            rw [hheap]
            exact hop.apart
          exact ⟨(destroy_frame _ _).words.trans (congrArg _ hheap), (destroy_frame _ _).replaceCalls.trans hcalls,
            hap.destroy⟩
        · rw [hp₁] at hp₁'
          cases hp₁'
    refine ⟨hd', hop.accounted.remove hrun, hcode.2.2, hun, ?_, hop.upid⟩
    rw [hl']
    refine hop.intact.cleared ?_ ?_ hcode.1 hcode.2.1
    · intro q hq
      rw [hl]
      simp only [List.mem_append, List.mem_cons] at hq ⊢
      tauto
    · intro q hq
      rcases ho q (hne q hq) with e | e
      · exact .inl e
      · exact .inr (by rw [e])
  · rw [fpRemoveFunctionPatch_not_mem hm] at hrun
    cases hrun
    exact hop

/-! ## Unloading -/

theorem patchesAt_congr {a : Word} (hl : s'.gPatchedFunctions = s.gPatchedFunctions)
    (hflag : ∀ q ∈ s.gPatchedFunctions, patchedAt s' a q = patchedAt s a q)
    (ho : ∀ q ∈ s.gPatchedFunctions, patchedAt s a q = true → s'.objects q = s.objects q) :
    patchesAt s' a = patchesAt s a := by
  rw [patchesAt_eq, patchesAt_eq, hl, List.filter_congr hflag]
  apply List.map_congr_left
  intro q hq
  obtain ⟨hq, hat⟩ := List.mem_filter.mp hq
  exact ho q hq hat

theorem Disciplined.clear (hd : Disciplined o s) (hl : s'.gPatchedFunctions = s.gPatchedFunctions) (hm : s'.mem = s.mem)
    (ho : ∀ q, s'.objects q = s.objects q ∨ s'.objects q = { s.objects q with isPatched := false })
    (hw : WholeChains s s') : Disciplined (originalIn s' o) s' := by
  have hold : ∀ q, (s'.objects q).isPatched = true → s'.objects q = s.objects q := by
    intro q hq
    refine (ho q).resolve_right fun e => ?_
    rw [e] at hq
    cases hq
  refine ⟨by rw [hl]; exact hd.nodup, ?_, ?_⟩
  · intro a
    show Overlay.Chain _ _ (originalIn s' o a) (patchesAt s' a) (s'.mem a)
    unfold originalIn
    rcases hw a with hall | hnone
    · have hsame : patchesAt s' a = patchesAt s a := by
        refine patchesAt_congr hl ?_ fun q hq hat => hold q (hall q hq hat)
        intro q hq
        by_cases hat : patchedAt s a q = true
        · have e := hold q (hall q hq hat)
          rw [hat]
          rw [patchedAt_iff] at hat ⊢
          rw [e]
          exact hat
        · have hat' : ¬ patchedAt s' a q = true := by
            rw [patchedAt_iff] at hat ⊢
            intro hat'
            have e := hold q hat'.1
            rw [e] at hat'
            exact hat hat'
          rw [Bool.not_eq_true] at hat hat'
          rw [hat, hat']
      cases hrs : patchesAt s a with
      | nil =>
        rw [hsame, hrs]
        rfl
      | cons r rs =>
        rw [hsame, hrs, if_neg (by simp), hm, ← hrs]
        exact hd.stacked a
    · have hnil : patchesAt s' a = [] := by
        apply patchesAt_eq_nil
        intro q hq
        rw [hl] at hq
        apply patchedAt_eq_false
        intro hp hphys
        rw [hold q hp] at hphys
        have := hnone q hq (patchedAt_iff.mpr ⟨hold q hp ▸ hp, hphys⟩)
        rw [this] at hp
        cases hp
      rw [hnil]
      rfl
  · intro q hq hqp
    rw [hl] at hq
    have e := hold q hqp
    rw [e] at hqp ⊢
    exact hd.complete q hq hqp

theorem originalIn_unpatched {a : Word} (hd : Disciplined o s) (hm : s'.mem a = s.mem a)
    (h : ∀ p ∈ s.gPatchedFunctions, patchedAt s a p = false) : originalIn s' o a = o a := by
  unfold originalIn
  split
  · rw [hm]
    exact hd.unpatched_mem h
  · rfl

theorem Operational.upid_kept (h : Operational T U o s) (h₀ : s'.mem (T.mmu T.osGetUPID) = s.mem (T.mmu T.osGetUPID))
    (h₁ : s'.mem (T.mmu (T.osGetUPID + 4)) = s.mem (T.mmu (T.osGetUPID + 4))) :
    UpidCode (originalIn s' o (T.mmu T.osGetUPID)) (originalIn s' o (T.mmu (T.osGetUPID + 4))) U := by
  rw [originalIn_unpatched h.disciplined h₀ h.conforms.spared.1,
    originalIn_unpatched h.disciplined h₁ h.conforms.spared.2]
  exact h.upid

theorem unloaded_eq {module : Word} (hd : Disciplined o s) (hw : UnloadsWhole s module)
    (hrun : notifyCallback E s module .unloaded = .ok s') :
    s' = libraryCleared s module ∧ Disciplined (originalIn s' o) s' := by
  obtain ⟨P, ob, e, ho⟩ := libraryCleared_cleared s module
  have hwhole : WholeChains s (libraryCleared s module) := by
    intro a
    rcases hw a with h | h
    · exact .inl fun p hp hat => (libraryCleared_isPatched hp).trans (h p hp hat)
    · exact .inr fun p hp hat => (libraryCleared_isPatched hp).trans (h p hp hat)
  have hd' : Disciplined (originalIn (libraryCleared s module) o) (libraryCleared s module) := by
    refine hd.clear ?_ ?_ ?_ hwhole
    · rw [e]
    · rw [e]
    · rw [e]
      exact ho
  have hrun := unloaded_check hrun
  have hcheck : checkLoop E (libraryCleared s module) {} s.gPatchedFunctions.reverse = libraryCleared s module := by
    have : checkIfPatchedFunctionsAreStillInMemory E (libraryCleared s module) = libraryCleared s module := hd'.check_eq
    have hl : (libraryCleared s module).gPatchedFunctions = s.gPatchedFunctions := by rw [e]
    rw [← hl]
    exact this
  rw [hcheck] at hrun
  rw [← hrun]
  exact ⟨rfl, hd'⟩

theorem Operational.unload {module : Word} (h : Operational T U o s) (hfresh : E.AllocatesFresh)
    (hnew : E.newObject ∉ s.gPatchedFunctions) (hw : UnloadsWhole s module)
    (hrun : (Event.notify module .unloaded).run E s = .ok s') : Operational T U (originalIn s' o) s' := by
  have hacc := h.accounted.event hfresh hnew hrun
  obtain ⟨e, hd⟩ := unloaded_eq h.disciplined hw hrun
  obtain ⟨P, ob, e', ho⟩ := libraryCleared_cleared s module
  rw [e'] at e
  subst e
  have hob : ∀ q, (ob q).realCallFunctionAddressPtr = (s.objects q).realCallFunctionAddressPtr ∧
      ((ob q).isPatched = true → ob q = s.objects q) := by
    intro q
    rcases ho q with e | e
    · rw [e]
      exact ⟨rfl, fun _ => rfl⟩
    · rw [e]
      exact ⟨rfl, fun hp => by cases hp⟩
  refine ⟨hd, hacc, h.apart, ⟨?_, ?_⟩, ?_, h.upid_kept rfl rfl⟩
  · show (s.gPatchedFunctions.map fun q => (ob q).realCallFunctionAddressPtr).Nodup
    simp only [(hob _).1]
    exact h.conforms.replaceCalls
  · intro q hq hqp
    have e : ob q = s.objects q := (hob q).2 hqp
    have hqp : (ob q).isPatched = true := hqp
    rw [e] at hqp
    have := h.conforms.osGetUPID q hq hqp
    rw [← e] at this
    exact this
  · refine h.intact.cleared (fun _ hq => hq) ?_ rfl rfl
    intro q _
    rcases ho q with e | e
    · exact .inl e
    · exact .inr (congrArg PatchedFunctionData.isPatched e)

/-! ## Steps -/

theorem Operational.memory {m : Word → Word} (h : Operational T U o s)
    (hm : ∀ p ∈ s.gPatchedFunctions, (s.objects p).isPatched = true →
      m (s.objects p).realPhysicalFunctionAddress = s.mem (s.objects p).realPhysicalFunctionAddress)
    (h₀ : m (T.mmu T.osGetUPID) = s.mem (T.mmu T.osGetUPID))
    (h₁ : m (T.mmu (T.osGetUPID + 4)) = s.mem (T.mmu (T.osGetUPID + 4))) :
    Operational T U (originalIn { s with mem := m } o) { s with mem := m } where
  disciplined := h.disciplined.memory hm
  accounted := h.accounted.untouched ⟨rfl, rfl, rfl, fun _ => ⟨rfl, rfl, rfl, rfl⟩⟩
  apart := h.apart
  conforms := ⟨h.conforms.replaceCalls, h.conforms.osGetUPID⟩
  intact := h.intact.cleared (fun _ hq => hq) (fun _ _ => .inl rfl) rfl rfl
  upid := h.upid_kept h₀ h₁

theorem Operational.event {ev : Event} (h : Operational T U o s) (hE : T.Admits E) (hfresh : E.AllocatesFresh)
    (hapart : E.AllocatesApart) (hnew : E.newObject ∉ s.gPatchedFunctions) (hc : InOrder o E s ev)
    (hrun : ev.run E s = .ok s') (hun : Conforms T s') : Operational T U o s' := by
  cases ev with
  | add fd =>
    obtain ⟨res, hadd⟩ := Event.run_ok_add hrun
    exact h.add hE hfresh hapart hnew hc hadd hun
  | remove handle =>
    obtain ⟨st, hrem⟩ := Event.run_ok_remove hrun
    exact h.remove hc hrem hun
  | notify module reason =>
    cases reason with
    | loaded => exact h.pass hE (fun _ hp => hp) hc hrun hun
    | unloaded => exact hc.elim
  | applicationStarts =>
    simp only [Event.run, FunctionPatcher.applicationStarts, h.disciplined.check_eq] at hrun
    split at hrun
    · cases hrun
      exact h
    · rename_i hu
      exact h.pass hE (fun _ hp => hp) (hc (by tauto)) hrun hun
  | applicationEnds =>
    have hd := h.disciplined.event hnew hc hrun
    have hacc := h.accounted.event hfresh hnew hrun
    cases hrun
    exact ⟨hd, hacc, h.apart, hun, h.intact.cleared (fun _ hq => hq) (fun _ _ => .inl rfl) rfl rfl, h.upid⟩

end

end FunctionPatcher
