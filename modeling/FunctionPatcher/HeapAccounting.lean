import FunctionPatcher.Runs

/-!
# The jump heap

The blocks in use are the buffers of the listed records. A record is made with
the buffers it needs or not at all, nothing but its destructor gives them back,
and so no generator ever finds one missing.
-/

namespace FunctionPatcher

/-- What `MEMAllocFromExpHeapEx` guarantees: no block in use is handed out again. -/
def Env.AllocatesFresh (E : Env) : Prop :=
  ∀ blocks size, E.memAllocFromExpHeapEx blocks size ≠ 0 →
    E.memAllocFromExpHeapEx blocks size ∉ blocks.map Prod.fst

def NeedsJumpData (r : PatchedFunctionData) : Prop :=
  0x01FFFFFC < r.replacementFunctionAddress ∨ r.targetProcess ≠ .all

/-- The blocks a record owns, with their sizes in words. -/
def buffersOf (r : PatchedFunctionData) : List (Word × Nat) :=
  [(r.jumpToOriginal, 5), (r.jumpData, 15)].filter fun b => b.1 ≠ 0

def ownedBlocks (s : State) : List (Word × Nat) := s.gPatchedFunctions.flatMap fun p => buffersOf (s.objects p)

structure BuffersComplete (r : PatchedFunctionData) : Prop where
  jumpToOriginal : r.jumpToOriginal ≠ 0
  jumpData : r.jumpData ≠ 0 ↔ NeedsJumpData r

structure HeapAccounted (s : State) : Prop where
  handles : s.gPatchedFunctions.Nodup
  owned : s.jumpHeap.blocks.Perm (ownedBlocks s)
  distinct : (s.jumpHeap.blocks.map Prod.fst).Nodup
  replays : Ledger.replay s.jumpHeap.calls = some (s.jumpHeap.blocks.map Prod.fst)
  complete : ∀ p ∈ s.gPatchedFunctions, BuffersComplete (s.objects p)

/-! ## What leaves the accounts alone -/

/-- The fields of a record that say which blocks it has and which it needs. -/
def sameBuffers (r r' : PatchedFunctionData) : Prop :=
  r'.jumpToOriginal = r.jumpToOriginal ∧ r'.jumpData = r.jumpData ∧
  r'.replacementFunctionAddress = r.replacementFunctionAddress ∧ r'.targetProcess = r.targetProcess

structure HeapUntouched (s s' : State) : Prop where
  list : s'.gPatchedFunctions = s.gPatchedFunctions
  blocks : s'.jumpHeap.blocks = s.jumpHeap.blocks
  calls : s'.jumpHeap.calls = s.jumpHeap.calls
  records : ∀ q, sameBuffers (s.objects q) (s'.objects q)

theorem HeapUntouched.refl (s : State) : HeapUntouched s s := ⟨rfl, rfl, rfl, fun _ => ⟨rfl, rfl, rfl, rfl⟩⟩

theorem HeapUntouched.trans {s s₁ s₂ : State} (h₁ : HeapUntouched s s₁) (h₂ : HeapUntouched s₁ s₂) :
    HeapUntouched s s₂ where
  list := h₂.list.trans h₁.list
  blocks := h₂.blocks.trans h₁.blocks
  calls := h₂.calls.trans h₁.calls
  records := fun q => by
    obtain ⟨a, b, c, d⟩ := h₁.records q
    obtain ⟨a', b', c', d'⟩ := h₂.records q
    exact ⟨a'.trans a, b'.trans b, c'.trans c, d'.trans d⟩

theorem sameBuffers.complete {r r' : PatchedFunctionData} (h : sameBuffers r r') (hc : BuffersComplete r) :
    BuffersComplete r' := by
  obtain ⟨h₁, h₂, h₃, h₄⟩ := h
  constructor
  · rw [h₁]; exact hc.jumpToOriginal
  · unfold NeedsJumpData
    rw [h₂, h₃, h₄]
    exact hc.jumpData

theorem HeapUntouched.ownedBlocks {s s' : State} (h : HeapUntouched s s') : ownedBlocks s' = ownedBlocks s := by
  unfold FunctionPatcher.ownedBlocks
  rw [h.list]
  congr 1
  funext q
  obtain ⟨h₁, h₂, _⟩ := h.records q
  unfold buffersOf
  rw [h₁, h₂]

theorem HeapAccounted.untouched {s s' : State} (hs : HeapAccounted s) (h : HeapUntouched s s') : HeapAccounted s' where
  handles := by rw [h.list]; exact hs.handles
  owned := by rw [h.blocks, h.ownedBlocks]; exact hs.owned
  distinct := by rw [h.blocks]; exact hs.distinct
  replays := by rw [h.calls, h.blocks]; exact hs.replays
  complete := fun p hp => (h.records p).complete (hs.complete p (h.list ▸ hp))

theorem sameBuffers_update {s : State} {p : Word} {r : PatchedFunctionData} (h : sameBuffers (s.objects p) r) (q : Word) :
    sameBuffers (s.objects q) (Function.update s.objects p r q) := by
  by_cases hq : q = p
  · subst hq
    rw [Function.update_self]
    exact h
  · rw [Function.update_of_ne hq]
    exact ⟨rfl, rfl, rfl, rfl⟩

theorem patchFunction_untouched {E : Env} {s s' : State} {p : Word} {b : Bool}
    (h : patchFunction E s p = .ok (b, s')) : HeapUntouched s s' := by
  rcases patchFunction_ok h with ⟨_, _, rfl⟩ | ⟨_, _, P, calls, rfl⟩ | ⟨_, A, _, rfl⟩
  · exact .refl _
  · exact ⟨rfl, rfl, rfl, fun _ => ⟨rfl, rfl, rfl, rfl⟩⟩
  · exact ⟨rfl, rfl, rfl, sameBuffers_update ⟨rfl, rfl, rfl, rfl⟩⟩

theorem restoreFunction_untouched {E : Env} {s s' : State} {p : Word} {b : Bool}
    (h : restoreFunction E s p = .ok (b, s')) : HeapUntouched s s' := by
  rcases restoreFunction_ok h with ⟨_, _, rfl⟩ | ⟨_, _, _, rfl⟩ | ⟨_, _, rfl⟩
  · exact .refl _
  · exact .refl _
  · exact ⟨rfl, rfl, rfl, sameBuffers_update ⟨rfl, rfl, rfl, rfl⟩⟩

theorem Cleared.untouched {s s' : State} (h : Cleared s s') : HeapUntouched s s' := by
  obtain ⟨o, rfl, ho⟩ := h
  refine ⟨rfl, rfl, rfl, ?_⟩
  intro q
  rcases ho q with e | e <;> simp only [e] <;> exact ⟨rfl, rfl, rfl, rfl⟩

theorem forEach_untouched {f : State → Word → Except String (Bool × State)}
    (hf : ∀ s p b s', f s p = .ok (b, s') → HeapUntouched s s') {s s' : State} {ps : List Word}
    (h : forEach f s ps = .ok s') : HeapUntouched s s' :=
  forEach_induct (fun t => HeapUntouched s t) (fun s p b s' _ hs h => hs.trans (hf s p b s' h)) (.refl s) h

/-! ## Allocating -/

section
variable {E : Env} {s : State} {p : Word}

theorem memAllocFromExpHeapEx_zero {H : JumpHeap} {n : Nat} (h : E.memAllocFromExpHeapEx H.blocks n = 0) :
    memAllocFromExpHeapEx E H n = (0, H) := by
  simp [memAllocFromExpHeapEx, h]

theorem memAllocFromExpHeapEx_block {H : JumpHeap} {n : Nat} {a : Word} (h : E.memAllocFromExpHeapEx H.blocks n = a)
    (h0 : a ≠ 0) : memAllocFromExpHeapEx E H n =
      (a, { H with blocks := (a, n) :: H.blocks, calls := .alloc a :: H.calls }) := by
  subst h
  exact if_neg h0

end

structure Accounts (H : JumpHeap) : Prop where
  distinct : (H.blocks.map Prod.fst).Nodup
  replays : Ledger.replay H.calls = some (H.blocks.map Prod.fst)

theorem Accounts.alloc {H : JumpHeap} {a : Word} {n : Nat} (h : Accounts H) (ha : a ∉ H.blocks.map Prod.fst) :
    Accounts { H with blocks := (a, n) :: H.blocks, calls := .alloc a :: H.calls } where
  distinct := List.nodup_cons.mpr ⟨ha, h.distinct⟩
  replays := Ledger.replay_alloc h.replays ha

theorem Accounts.free {H : JumpHeap} {a : Word} (h : Accounts H) (ha : a ∈ H.blocks.map Prod.fst) :
    Accounts (memFreeToExpHeap H a) where
  distinct := by
    show ((H.blocks.eraseP _).map Prod.fst).Nodup
    rw [Ledger.map_fst_eraseP]
    exact h.distinct.erase a
  replays := by
    show Ledger.replay (.free a :: H.calls) = some ((H.blocks.eraseP _).map Prod.fst)
    rw [Ledger.map_fst_eraseP]
    exact Ledger.replay_free h.replays ha

theorem Accounts.freeBuffer {H : JumpHeap} {a : Word} {n : Nat} {rest : List (Word × Nat)} (h : Accounts H)
    (hp : H.blocks.Perm ([(a, n)].filter (fun b => b.1 ≠ 0) ++ rest)) :
    Accounts (freeBuffer H a) ∧ (freeBuffer H a).blocks.Perm rest := by
  unfold FunctionPatcher.freeBuffer
  by_cases h0 : a = 0
  · rw [if_neg (by simpa using h0)]
    rw [List.filter_cons_of_neg (by simpa using h0)] at hp
    exact ⟨h, hp⟩
  · rw [if_pos h0]
    rw [List.filter_cons_of_pos (by simpa using h0)] at hp
    refine ⟨h.free ?_, Ledger.eraseP_perm h.distinct hp⟩
    exact (hp.map Prod.fst).mem_iff.mpr (by simp)

theorem freeBuffer_head {H : JumpHeap} {a : Word} {n : Nat} {rest : List (Word × Nat)}
    (hb : H.blocks = [(a, n)].filter (fun b => b.1 ≠ 0) ++ rest) : (freeBuffer H a).blocks = rest := by
  unfold FunctionPatcher.freeBuffer
  by_cases h0 : a = 0
  · rw [List.filter_cons_of_neg (by simpa using h0)] at hb
    rw [if_neg (by simpa using h0)]
    exact hb
  · rw [List.filter_cons_of_pos (by simpa using h0)] at hb
    rw [if_pos h0]
    simp [memFreeToExpHeap, hb]

theorem buffersOf_eq (r : PatchedFunctionData) : buffersOf r =
    [(r.jumpToOriginal, 5)].filter (fun b => b.1 ≠ 0) ++ [(r.jumpData, 15)].filter (fun b => b.1 ≠ 0) := by
  unfold buffersOf
  rw [← List.filter_append]
  rfl

section
variable {E : Env} {s s₁ : State} {p : Word} {b : Bool}

theorem allocateJumpToOriginal_accounts {rest : List (Word × Nat)} (hE : E.AllocatesFresh) (hacc : Accounts s.jumpHeap)
    (hb : s.jumpHeap.blocks = [((s.objects p).jumpData, 15)].filter (fun b => b.1 ≠ 0) ++ rest)
    (hd : (s.objects p).jumpData ≠ 0 ↔ NeedsJumpData (s.objects p))
    (h : allocateJumpToOriginal E s p = (b, s₁)) :
    Accounts s₁.jumpHeap ∧ s₁.jumpHeap.blocks = buffersOf (s₁.objects p) ++ rest ∧
      (b = true → BuffersComplete (s₁.objects p)) := by
  unfold allocateJumpToOriginal at h
  by_cases ha : E.memAllocFromExpHeapEx s.jumpHeap.blocks 5 = 0
  · simp only [memAllocFromExpHeapEx_zero ha] at h
    cases h
    refine ⟨hacc, ?_, fun hb => by cases hb⟩
    rw [setObject_objects_self, buffersOf_eq]
    exact hb
  · simp only [memAllocFromExpHeapEx_block rfl ha] at h
    cases h
    refine ⟨hacc.alloc (hE _ _ ha), ?_, fun _ => ?_⟩
    · rw [setObject_objects_self, buffersOf_eq, List.filter_cons_of_pos (by simpa using ha), List.append_assoc, ← hb]
      rfl
    · rw [setObject_objects_self]
      exact ⟨ha, hd⟩

theorem allocateDataForJumps_accounts (hE : E.AllocatesFresh) (hacc : Accounts s.jumpHeap)
    (hd : (s.objects p).jumpData = 0) (ho : (s.objects p).jumpToOriginal = 0)
    (h : allocateDataForJumps E s p = (b, s₁)) :
    Accounts s₁.jumpHeap ∧ s₁.jumpHeap.blocks = buffersOf (s₁.objects p) ++ s.jumpHeap.blocks ∧
      (b = true → BuffersComplete (s₁.objects p)) := by
  unfold allocateDataForJumps at h
  rw [if_neg (by simp [hd])] at h
  unfold allocateJumpData at h
  by_cases hn : NeedsJumpData (s.objects p)
  · have hn' : 0x01FFFFFC < (s.objects p).replacementFunctionAddress ∨ (s.objects p).targetProcess ≠ .all := hn
    simp only [if_pos hn'] at h
    by_cases ha : E.memAllocFromExpHeapEx s.jumpHeap.blocks 15 = 0
    · simp only [memAllocFromExpHeapEx_zero ha] at h
      cases h
      refine ⟨hacc, ?_, fun hb => by cases hb⟩
      simp [buffersOf, ho]
    · simp only [memAllocFromExpHeapEx_block rfl ha, decide_eq_true ha] at h
      refine allocateJumpToOriginal_accounts hE (hacc.alloc (hE _ _ ha)) ?_ ?_ h
      · rw [setObject_objects_self, List.filter_cons_of_pos (by simpa using ha)]
        rfl
      · rw [setObject_objects_self]
        exact iff_of_true ha hn
  · have hn' : ¬ (0x01FFFFFC < (s.objects p).replacementFunctionAddress ∨ (s.objects p).targetProcess ≠ .all) := hn
    simp only [if_neg hn'] at h
    exact allocateJumpToOriginal_accounts hE hacc (by simp [hd]) (by simp [hn, hd]) h

theorem destroy_accounts {rest : List (Word × Nat)} (hacc : Accounts s.jumpHeap)
    (hp : s.jumpHeap.blocks.Perm (buffersOf (s.objects p) ++ rest)) :
    Accounts (destroy s p).jumpHeap ∧ (destroy s p).jumpHeap.blocks.Perm rest := by
  rw [buffersOf_eq, List.append_assoc] at hp
  obtain ⟨hacc₁, hp₁⟩ := hacc.freeBuffer hp
  exact hacc₁.freeBuffer hp₁

theorem destroy_blocks {rest : List (Word × Nat)} (hb : s.jumpHeap.blocks = buffersOf (s.objects p) ++ rest) :
    (destroy s p).jumpHeap.blocks = rest := by
  rw [buffersOf_eq, List.append_assoc] at hb
  exact freeBuffer_head (freeBuffer_head hb)

end

/-! ## Calls and events -/

theorem HeapAccounted.accounts {s : State} (hs : HeapAccounted s) : Accounts s.jumpHeap := ⟨hs.distinct, hs.replays⟩

theorem ownedBlocks_congr {s s' : State} (hl : s'.gPatchedFunctions = s.gPatchedFunctions)
    (ho : ∀ q ∈ s.gPatchedFunctions, s'.objects q = s.objects q) : ownedBlocks s' = ownedBlocks s := by
  unfold ownedBlocks
  rw [hl]
  exact List.flatMap_congr fun q hq => by rw [ho q hq]

theorem construct_accounts {E : Env} {s s₁ : State} {d : FunctionReplacementData} {b : Bool} (hs : HeapAccounted s)
    (hE : E.AllocatesFresh) (h : allocateDataForJumps E (constructed E s d) E.newObject = (b, s₁)) :
    Accounts s₁.jumpHeap ∧ s₁.jumpHeap.blocks = buffersOf (s₁.objects E.newObject) ++ s.jumpHeap.blocks ∧
      (b = true → BuffersComplete (s₁.objects E.newObject)) := by
  have hr : (constructed E s d).objects E.newObject = recordOf d := setObject_objects_self ..
  obtain ⟨_, hd, ho⟩ := recordOf_fresh d
  have hacc : Accounts (constructed E s d).jumpHeap := hs.accounts
  have hd : ((constructed E s d).objects E.newObject).jumpData = 0 := by rw [hr]; exact hd
  have ho : ((constructed E s d).objects E.newObject).jumpToOriginal = 0 := by rw [hr]; exact ho
  have := allocateDataForJumps_accounts hE hacc hd ho h
  exact this

/-- **Failure atomicity.** An add that does not succeed leaves the blocks, the list and memory. -/
theorem fpAddFunctionPatch_failed {E : Env} {s s' : State} {fd : Option FunctionReplacementData} {res : AddResult}
    (hs : HeapAccounted s) (hE : E.AllocatesFresh) (h : fpAddFunctionPatch E s fd = .ok (res, s'))
    (hres : res.status ≠ .success) : s'.jumpHeap.blocks = s.jumpHeap.blocks ∧
      s'.gPatchedFunctions = s.gPatchedFunctions ∧ s'.mem = s.mem := by
  rcases fpAddFunctionPatch_ok h with ⟨_, rfl | ⟨d, s₁, _, ha, rfl⟩⟩ | ⟨hok, _⟩
  · exact ⟨rfl, rfl, rfl⟩
  · obtain ⟨_, hb, _⟩ := construct_accounts hs hE ha
    exact ⟨destroy_blocks hb, (destroy_frame _ _).list.trans (allocateDataForJumps_frame ha).list,
      (destroy_frame _ _).mem_eq.trans (allocateDataForJumps_frame ha).mem_eq⟩
  · exact absurd hok hres

section
variable {E : Env} {s s' : State}

theorem HeapAccounted.add {fd : Option FunctionReplacementData} {res : AddResult} (hs : HeapAccounted s)
    (hE : E.AllocatesFresh) (hnew : E.newObject ∉ s.gPatchedFunctions)
    (h : fpAddFunctionPatch E s fd = .ok (res, s')) : HeapAccounted s' := by
  have hne : ∀ q ∈ s.gPatchedFunctions, q ≠ E.newObject := fun q hq e => hnew (e ▸ hq)
  rcases fpAddFunctionPatch_ok h with ⟨_, rfl | ⟨d, s₁, _, ha, rfl⟩⟩ | ⟨_, _, d, b, s₁, s₂, _, ha, hp, rfl⟩
  · exact hs
  · obtain ⟨hacc, hb, _⟩ := construct_accounts hs hE ha
    obtain ⟨hacc', hperm⟩ := destroy_accounts hacc (.of_eq hb)
    have hl : (destroy s₁ E.newObject).gPatchedFunctions = s.gPatchedFunctions :=
      (destroy_frame _ _).list.trans (allocateDataForJumps_frame ha).list
    have ho : ∀ q ∈ s.gPatchedFunctions, (destroy s₁ E.newObject).objects q = s.objects q := by
      intro q hq
      rw [(destroy_frame _ _).objects_ne (hne q hq), (allocateDataForJumps_frame ha).objects_ne (hne q hq)]
      exact setObject_objects_ne _ _ _ (hne q hq)
    refine ⟨by rw [hl]; exact hs.handles, ?_, hacc'.distinct, hacc'.replays, ?_⟩
    · rw [ownedBlocks_congr hl ho]
      exact hperm.trans hs.owned
    · intro q hq
      rw [hl] at hq
      rw [ho q hq]
      exact hs.complete q hq
  · obtain ⟨hacc, hb, hc⟩ := construct_accounts hs hE ha
    have hl : s₁.gPatchedFunctions = s.gPatchedFunctions := (allocateDataForJumps_frame ha).list
    have ho : ∀ q ∈ s.gPatchedFunctions, s₁.objects q = s.objects q := by
      intro q hq
      rw [(allocateDataForJumps_frame ha).objects_ne (hne q hq)]
      exact setObject_objects_ne _ _ _ (hne q hq)
    -- the accounts of the new list, before `PatchFunction` runs
    have hpub : HeapAccounted (publishPatch s₁ E.newObject) := by
      have hl' : (publishPatch s₁ E.newObject).gPatchedFunctions = s.gPatchedFunctions ++ [E.newObject] := by
        show s₁.gPatchedFunctions ++ _ = _
        rw [hl]
      refine ⟨?_, ?_, hacc.distinct, hacc.replays, ?_⟩
      · rw [hl', List.nodup_append]
        refine ⟨hs.handles, List.nodup_singleton _, ?_⟩
        intro a ha b hb hab
        rw [List.mem_singleton] at hb
        exact hne a ha (hab.trans hb)
      · have hown : ownedBlocks (publishPatch s₁ E.newObject) =
            ownedBlocks s ++ buffersOf (s₁.objects E.newObject) := by
          unfold ownedBlocks
          rw [hl', List.flatMap_append, List.flatMap_singleton]
          congr 1
          exact List.flatMap_congr fun q hq => by
            show buffersOf (s₁.objects q) = _
            rw [ho q hq]
        rw [hown]
        show s₁.jumpHeap.blocks.Perm _
        rw [hb]
        exact List.perm_append_comm.trans (hs.owned.append_right _)
      · intro q hq
        show BuffersComplete (s₁.objects q)
        rw [hl', List.mem_append, List.mem_singleton] at hq
        rcases hq with hq | rfl
        · rw [ho q hq]
          exact hs.complete q hq
        · exact hc rfl
    have hu := patchFunction_untouched hp
    exact hpub.untouched ⟨congrArg (· ++ [E.newObject]) hu.list, hu.blocks, hu.calls, hu.records⟩

theorem HeapAccounted.drop {h : Word} {pre post : List Word} (hs : HeapAccounted s)
    (hl : s.gPatchedFunctions = pre ++ h :: post) (hl' : s'.gPatchedFunctions = pre ++ post)
    (hb : s'.jumpHeap.blocks = s.jumpHeap.blocks) (hc : s'.jumpHeap.calls = s.jumpHeap.calls)
    (hr : ∀ q, sameBuffers (s.objects q) (s'.objects q)) : HeapAccounted (destroy s' h) := by
  have hn := hs.handles
  rw [hl] at hn
  obtain ⟨hpre, hpost⟩ := nodup_split hn
  have hsame : ∀ q, buffersOf (s'.objects q) = buffersOf (s.objects q) := by
    intro q
    obtain ⟨h₁, h₂, _⟩ := hr q
    unfold buffersOf
    rw [h₁, h₂]
  have hacc : Accounts s'.jumpHeap := ⟨by rw [hb]; exact hs.distinct, by rw [hb, hc]; exact hs.replays⟩
  have hperm : s'.jumpHeap.blocks.Perm (buffersOf (s'.objects h) ++ ownedBlocks s') := by
    have howned := hs.owned
    unfold ownedBlocks at howned ⊢
    rw [hl, List.flatMap_append, List.flatMap_cons] at howned
    rw [hb, hl', List.flatMap_append]
    simp only [hsame]
    exact howned.trans (List.perm_append_comm_assoc _ _ _)
  obtain ⟨hacc', hperm'⟩ := destroy_accounts hacc hperm
  have hlist : (destroy s' h).gPatchedFunctions = pre ++ post := (destroy_frame _ _).list.trans hl'
  have hne : ∀ q ∈ pre ++ post, q ≠ h := by
    intro q hq e
    rw [e] at hq
    exact (List.mem_append.mp hq).elim hpre hpost
  refine ⟨?_, ?_, hacc'.distinct, hacc'.replays, ?_⟩
  · rw [hlist]
    exact hn.sublist (List.Sublist.append_left (List.sublist_cons_self h post) pre)
  · rw [ownedBlocks_congr (destroy_frame _ _).list fun q hq => (destroy_frame _ _).objects_ne (hne q (hl' ▸ hq))]
    exact hperm'
  · intro q hq
    rw [hlist] at hq
    rw [(destroy_frame _ _).objects_ne (hne q hq)]
    refine (hr q).complete (hs.complete q ?_)
    rw [hl]
    simp only [List.mem_append, List.mem_cons] at hq ⊢
    tauto

theorem HeapAccounted.remove {h : Word} {st : FunctionPatcherStatus} (hs : HeapAccounted s)
    (hrun : fpRemoveFunctionPatch E s h = .ok (st, s')) : HeapAccounted s' := by
  by_cases hm : h ∈ s.gPatchedFunctions
  · obtain ⟨pre, post, hl⟩ := List.append_of_mem hm
    obtain ⟨_, ⟨_, rfl⟩ | ⟨_, s₁, h₁, hcase⟩⟩ := fpRemoveFunctionPatch_ok hl hs.handles hrun
    · exact hs.drop hl rfl rfl rfl fun q => ⟨rfl, rfl, rfl, rfl⟩
    have hu₁ := forEach_untouched (fun _ _ _ _ => restoreFunction_untouched) h₁
    rcases hcase with ⟨_, rfl⟩ | ⟨_, s₂, h₂, rfl⟩
    · exact hs.drop hl rfl hu₁.blocks hu₁.calls hu₁.records
    · have hu₂ := forEach_untouched (fun _ _ _ _ => patchFunction_untouched) h₂
      have hu : HeapUntouched { s with gPatchedFunctions := pre ++ post }
          { s₁ with gPatchedFunctions := pre ++ post } := ⟨rfl, hu₁.blocks, hu₁.calls, hu₁.records⟩
      have hu := hu.trans hu₂
      exact hs.drop hl hu.list hu.blocks hu.calls hu.records
  · rw [fpRemoveFunctionPatch_not_mem hm] at hrun
    cases hrun
    exact hs

end

theorem HeapAccounted.event {E : Env} {s s' : State} {ev : Event} (hs : HeapAccounted s) (hE : E.AllocatesFresh)
    (hnew : E.newObject ∉ s.gPatchedFunctions) (h : ev.run E s = .ok s') : HeapAccounted s' := by
  cases ev with
  | add fd =>
    obtain ⟨res, hadd⟩ := Event.run_ok_add h
    exact hs.add hE hnew hadd
  | remove handle =>
    obtain ⟨st, hrem⟩ := Event.run_ok_remove h
    exact hs.remove hrem
  | notify module reason =>
    cases reason with
    | loaded => exact hs.untouched (forEach_untouched (fun _ _ _ _ => patchFunction_untouched) h)
    | unloaded =>
      cases h
      refine hs.untouched (.trans ?_ (checkLoop_cleared _ _ _ _).untouched)
      split
      · exact (clearLibrary_cleared _ _ s).untouched.trans ⟨rfl, rfl, rfl, fun _ => ⟨rfl, rfl, rfl, rfl⟩⟩
      · exact ⟨rfl, rfl, rfl, fun _ => ⟨rfl, rfl, rfl, rfl⟩⟩
  | applicationStarts =>
    simp only [Event.run, FunctionPatcher.applicationStarts] at h
    split at h
    · cases h
      exact hs
    · exact hs.untouched ((checkLoop_cleared _ _ _ _).untouched.trans
        (forEach_untouched (fun _ _ _ _ => patchFunction_untouched) h))
  | applicationEnds =>
    cases h
    exact hs.untouched ⟨rfl, rfl, rfl, fun _ => ⟨rfl, rfl, rfl, rfl⟩⟩

/-! ## The fatal errors of the generators -/

/-- The texts of the two `OSFatal` calls for a missing buffer. -/
def NotAllocated (e : String) : Prop :=
  e = "FunctionPatcherModule: this->jumpToOriginal is not allocated" ∨
  e = "FunctionPatcherModule: jumpData was not allocated"

section
variable {E : Env} {s s' : State} {p : Word} {e : String}

theorem shouldBePatched_error {r : PatchedFunctionData} (h : shouldBePatched E s r = .error e) :
    ¬ NotAllocated e := by
  unfold shouldBePatched at h
  split at h
  · simp only at h
    split at h
    · cases h
    · split at h
      · cases h
        unfold NotAllocated
        decide
      · cases h
  · cases h

theorem storeFunctionAddresses_error {a : Word} (h : storeFunctionAddresses E s p a = .error e) :
    ¬ NotAllocated e := by
  unfold storeFunctionAddresses at h
  simp only at h
  split at h
  · cases h
    unfold NotAllocated
    decide
  · cases h

theorem getAddressForExecutable_error {r : PatchedFunctionData} (h : getAddressForExecutable E r = .error e) :
    ¬ NotAllocated e := by
  unfold getAddressForExecutable at h
  repeat' split at h
  all_goals cases h
  all_goals unfold NotAllocated; decide

theorem updateFunctionAddresses_error (h : updateFunctionAddresses E s p = .error e) : ¬ NotAllocated e := by
  unfold updateFunctionAddresses at h
  simp only at h
  split at h
  · split at h
    · rename_i hg
      cases h
      exact getAddressForExecutable_error hg
    · cases h
    · exact storeFunctionAddresses_error h
  · split at h
    · cases h
      unfold NotAllocated
      decide
    · cases h
    · split at h
      · cases h
        unfold NotAllocated
        decide
      · split at h
        · cases h
        · exact storeFunctionAddresses_error h

theorem applyPatch_error (hc : BuffersComplete (s.objects p)) (h : applyPatch E s p = .error e) :
    ¬ NotAllocated e := by
  unfold applyPatch at h
  split at h
  · cases h
    unfold NotAllocated
    decide
  rename_i w _
  let r₁ : PatchedFunctionData := { s.objects p with replacedInstruction := w }
  have h₀ : (s.setObject p r₁).objects p = r₁ := setObject_objects_self ..
  simp only at h
  split at h
  · rename_i e' hg
    cases h
    unfold generateJumpToOriginal at hg
    rw [h₀] at hg
    simp only at hg
    rw [if_neg hc.jumpToOriginal] at hg
    cases hg
  rename_i s₁ h₁
  obtain ⟨_, e₁⟩ := generateJumpToOriginal_ok h₀ h₁
  have h₂ : s₁.objects p = r₁ := by rw [e₁]; exact h₀
  split at h
  · rename_i e' hg
    cases h
    unfold generateReplacementJump at hg
    rw [h₂] at hg
    simp only at hg
    split at hg
    · rename_i hn
      rw [if_neg (hc.jumpData.mpr hn)] at hg
      repeat' split at hg
      all_goals cases hg
      all_goals unfold NotAllocated; decide
    · cases hg
  · cases h

theorem patchFunction_error (hc : BuffersComplete (s.objects p)) (h : patchFunction E s p = .error e) :
    ¬ NotAllocated e := by
  unfold patchFunction at h
  split at h
  · cases h
  split at h
  · rename_i hs
    cases h
    exact shouldBePatched_error hs
  · cases h
  rename_i s₁ h₁
  obtain ⟨calls, rfl⟩ := shouldBePatched_ok h₁
  split at h
  · rename_i hu
    cases h
    exact updateFunctionAddresses_error hu
  · cases h
  rename_i s₂ h₂
  refine applyPatch_error ?_ h
  obtain ⟨P, ⟨hb, _⟩ | ⟨_, effective, physical, _, rfl⟩⟩ := updateFunctionAddresses_ok h₂
  · cases hb
  · rw [setObject_objects_self]
    exact ⟨hc.jumpToOriginal, hc.jumpData⟩

theorem restoreFunction_error (h : restoreFunction E s p = .error e) : ¬ NotAllocated e := by
  unfold restoreFunction at h
  simp only at h
  repeat' split at h
  all_goals cases h
  all_goals unfold NotAllocated; decide

theorem forEach_patchFunction_error {ps : List Word} (hc : ∀ p ∈ ps, BuffersComplete (s.objects p))
    (h : forEach (patchFunction E) s ps = .error e) : ¬ NotAllocated e := by
  obtain ⟨t, p, harr, he⟩ := forEach_error_iff.mp h
  have hp := harr.mem
  obtain ⟨pre, post, _, hpre⟩ := harr
  have hu : HeapUntouched s t := forEach_untouched (fun _ _ _ _ => patchFunction_untouched) hpre
  exact patchFunction_error ((hu.records p).complete (hc p hp)) he

theorem forEach_restoreFunction_error {ps : List Word} (h : forEach (restoreFunction E) s ps = .error e) :
    ¬ NotAllocated e := by
  obtain ⟨t, p, _, he⟩ := forEach_error_iff.mp h
  exact restoreFunction_error he

theorem fpRemoveFunctionPatch_error {h : Word} (hs : HeapAccounted s)
    (herr : fpRemoveFunctionPatch E s h = .error e) : ¬ NotAllocated e := by
  by_cases hm : h ∈ s.gPatchedFunctions
  · obtain ⟨pre, post, hl⟩ := List.append_of_mem hm
    obtain ⟨_, he | ⟨s₁, h₁, _, he⟩⟩ := (fpRemoveFunctionPatch_error_iff hl hs.handles).mp herr
    · exact forEach_restoreFunction_error he
    · have hu : HeapUntouched s s₁ := forEach_untouched (fun _ _ _ _ => restoreFunction_untouched) h₁
      refine forEach_patchFunction_error ?_ he
      intro p hp
      refine (hu.records p).complete (hs.complete p ?_)
      rw [hl]
      simp [(List.mem_filter.mp hp).1]
  · rw [fpRemoveFunctionPatch_not_mem hm] at herr
    cases herr

theorem Event.run_error {ev : Event} (hs : HeapAccounted s) (hE : E.AllocatesFresh) (h : ev.run E s = .error e) :
    ¬ NotAllocated e := by
  cases ev with
  | add fd =>
    obtain ⟨d, s₁, _, _, _, ha, hp⟩ := fpAddFunctionPatch_error_iff.mp (map_eq_error.mp h)
    obtain ⟨_, _, hc⟩ := construct_accounts hs hE ha
    exact patchFunction_error (hc rfl) hp
  | remove handle => exact fpRemoveFunctionPatch_error hs (map_eq_error.mp h)
  | notify module reason =>
    cases reason with
    | loaded => exact forEach_patchFunction_error hs.complete h
    | unloaded => cases h
  | applicationStarts =>
    simp only [Event.run, FunctionPatcher.applicationStarts] at h
    split at h
    · cases h
    · have hu : HeapUntouched s (checkIfPatchedFunctionsAreStillInMemory E s) :=
        (checkLoop_cleared _ _ _ _).untouched
      refine forEach_patchFunction_error ?_ h
      intro p hp
      exact (hu.records p).complete (hs.complete p (hu.list ▸ hp))
  | applicationEnds => cases h

end

/-! ## Runs -/

/-- An event under an allocator that may fail at any request, or a change of memory by
somebody else. -/
inductive HeapStep : State → State → Prop
  | event {s s' : State} (E : Env) (ev : Event) : E.AllocatesFresh → E.newObject ∉ s.gPatchedFunctions →
      ev.run E s = .ok s' → HeapStep s s'
  | memory (s : State) (mem : Word → Word) : HeapStep s { s with mem := mem }

theorem HeapStep.accounted {s s' : State} (h : HeapStep s s') (hs : HeapAccounted s) : HeapAccounted s' := by
  cases h with
  | event E ev hE hnew hrun => exact hs.event hE hnew hrun
  | memory mem => exact hs.untouched ⟨rfl, rfl, rfl, fun _ => ⟨rfl, rfl, rfl, rfl⟩⟩

theorem heapAccounted_of_steps {s₀ s : State} (h₀ : s₀.Initial) (hrun : Relation.ReflTransGen HeapStep s₀ s) :
    HeapAccounted s := by
  induction hrun with
  | refl =>
    obtain ⟨hl, hb, hc, _, _⟩ := h₀
    refine ⟨?_, ?_, ?_, ?_, ?_⟩
    · simp [hl]
    · simp [hb, ownedBlocks, hl]
    · simp [hb]
    · simp [hb, hc, Ledger.replay]
    · simp [hl]
  | tail _ step ih => exact step.accounted ih

/-- **The jump heap.** In every state of every run the blocks in use are the buffers of the listed
records, each allocated once more than it was freed, no generator finds a buffer missing, and an
add that fails leaves everything as it was. -/
theorem heap_accounted {s₀ s : State} (h₀ : s₀.Initial) (hrun : Relation.ReflTransGen HeapStep s₀ s) :
    HeapAccounted s ∧
    (∀ a, s.jumpHeap.calls.count (.alloc a) =
      s.jumpHeap.calls.count (.free a) + ((ownedBlocks s).map Prod.fst).count a) ∧
    (∀ (E : Env) (ev : Event) (e : String), E.AllocatesFresh → ev.run E s = .error e → ¬ NotAllocated e) ∧
    (∀ (E : Env) (fd : Option FunctionReplacementData) (res : AddResult) (s' : State), E.AllocatesFresh →
      fpAddFunctionPatch E s fd = .ok (res, s') → res.status ≠ .success →
      s'.jumpHeap.blocks = s.jumpHeap.blocks ∧ s'.gPatchedFunctions = s.gPatchedFunctions ∧ s'.mem = s.mem) := by
  have hs := heapAccounted_of_steps h₀ hrun
  refine ⟨hs, ?_, ?_, ?_⟩
  · intro a
    rw [Ledger.count_alloc hs.replays a, (hs.owned.map Prod.fst).count_eq]
  · intro E ev e hE h
    exact Event.run_error hs hE h
  · intro E fd res s' hE h hres
    exact fpAddFunctionPatch_failed hs hE h hres

theorem plainEnv_allocatesFresh (p : Word) (loaded : Bool) : (plainEnv p loaded).AllocatesFresh := by
  intro blocks size h
  simp only [plainEnv] at h ⊢
  split
  · rename_i hm
    rw [if_pos hm] at h
    exact absurd rfl h
  · assumption

def exhausted : Env :=
  { plainEnv 0x20 false with
    memAllocFromExpHeapEx := fun blocks size =>
      if size = 15 ∧ 0x00901000 ∉ blocks.map Prod.fst then 0x00901000 else 0 }

def addedUntilExhausted (n : Nat) : State :=
  ran (plainState 0x7c0802a6)
    ([(plainEnv 0x10 false, plainPatch .other 0x02000400 0x1000 .gameAndMenu),
      (exhausted, plainPatch .other 0x02000400 0x2000 .gameAndMenu)].take n)

theorem heap_accounted_exhausted : HeapAccounted (addedUntilExhausted 2) := by
  have hfresh : exhausted.AllocatesFresh := by
    intro blocks size h
    simp only [exhausted] at h ⊢
    split
    · rename_i hm
      exact hm.2
    · rename_i hm
      rw [if_neg hm] at h
      exact absurd rfl h
  have h₁ : HeapStep (plainState 0x7c0802a6) (addedUntilExhausted 1) :=
    .event (plainEnv 0x10 false) (plainPatch .other 0x02000400 0x1000 .gameAndMenu)
      (plainEnv_allocatesFresh _ _) (by decide) rfl
  have h₂ : HeapStep (addedUntilExhausted 1) (addedUntilExhausted 2) :=
    .event exhausted (plainPatch .other 0x02000400 0x2000 .gameAndMenu) hfresh (by decide +kernel) rfl
  exact (heap_accounted (plainState_initial _) (.tail (.single h₁) h₂)).1

end FunctionPatcher
