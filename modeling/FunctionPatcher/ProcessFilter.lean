import FunctionPatcher.Emitted
import FunctionPatcher.HeapAccounting

/-!
# The process filter

A trampoline with a filter starts by loading the process id, from the address
that the live code of `OSGetUPID` denotes when the trampoline is generated. That
is the real one as long as no patch lies on that code.
-/

namespace FunctionPatcher

open PowerPC (Machine decode exec At)

/-! ## Loading r11 -/

/-- The address of `lis rX, hi` and `lwz rY, lo(rX)`. -/
def loadAddress (hi lo : BitVec 16) : Word := (hi ++ 0#16) + lo.signExtend 32

def LoadsR11 (code : Word → Word) (a U : Word) : Prop :=
  ∃ hi lo, decode (code a) = .addis 11 0 hi ∧ decode (code (a + 4)) = .lwz 11 11 lo ∧ loadAddress hi lo = U

theorem LoadsR11.exec {sem : Word → Machine → Machine} {code : Word → Word} {a U : Word} (h : LoadsR11 code a U)
    {m : Machine} (hpc : m.pc = a) :
    exec sem (code (a + 4)) (exec sem (code a) m) =
      { m with pc := a + 8, gpr := Function.update m.gpr 11 (m.mem U) } := by
  obtain ⟨hi, lo, h₀, h₁, hU⟩ := h
  have hbase : m.base 0 = 0 := rfl
  simp only [PowerPC.exec, h₀, h₁, hbase]
  simp only [Machine.base, loadAddress] at hU ⊢
  rw [if_neg (by decide), Function.update_self, zero_add, hU, Function.update_idem, hpc, add_assoc]
  rfl

theorem decode_addis_fieldD {w : Word} {rt ra : BitVec 5} {si : BitVec 16} (h : decode w = .addis rt ra si) :
    PowerPC.fieldD w = si := by
  unfold decode at h
  split_ifs at h
  cases h
  rfl

theorem decode_lwz_fieldD {w : Word} {rt ra : BitVec 5} {d : BitVec 16} (h : decode w = .lwz rt ra d) :
    PowerPC.fieldD w = d := by
  unfold decode at h
  split_ifs at h
  cases h
  rfl

/-- The unpatched `OSGetUPID`: `lis rX, hi` and `lwz r3, lo(rX)` with the process id at `U`. -/
def UpidCode (w₀ w₁ U : Word) : Prop :=
  ∃ x hi lo, decode w₀ = .addis x 0 hi ∧ decode w₁ = .lwz 3 x lo ∧ loadAddress hi lo = U

/-- The words of `OSGetUPID` in memory have the immediates of `w₀` and `w₁`. -/
def UpidIntact (E : Env) (s : State) (w₀ w₁ : Word) : Prop :=
  PowerPC.fieldD (load E s E.osGetUPID) = PowerPC.fieldD w₀ ∧
  PowerPC.fieldD (load E s (E.osGetUPID + 4)) = PowerPC.fieldD w₁

theorem jumpDataWords_head (E : Env) (s : State) {r : PatchedFunctionData} (h : r.targetProcess ≠ .all) :
    ∃ ws, jumpDataWords E s r = (0x3d600000 ||| (load E s E.osGetUPID &&& 0x0000FFFF)) ::
      (0x816b0000 ||| (load E s (E.osGetUPID + 4) &&& 0x0000FFFF)) :: ws := by
  unfold jumpDataWords processFilterWords
  rw [if_pos h]
  cases ht : r.targetProcess with
  | all => exact absurd ht h
  | gameAndMenu => exact ⟨_, rfl⟩
  | upid u => exact ⟨_, rfl⟩

theorem loadsR11_of_at {E : Env} {s : State} {r : PatchedFunctionData} {code : Word → Word} {K : Word → Prop}
    {w₀ w₁ U : Word} (hcode : UpidCode w₀ w₁ U) (hlive : UpidIntact E s w₀ w₁) (h : r.targetProcess ≠ .all)
    (hat : At code K r.jumpData (jumpDataWords E s r)) : LoadsR11 code r.jumpData U := by
  obtain ⟨x, hi, lo, h₀, h₁, hU⟩ := hcode
  obtain ⟨hl₀, hl₁⟩ := hlive
  rw [decode_addis_fieldD h₀] at hl₀
  rw [decode_lwz_fieldD h₁] at hl₁
  obtain ⟨ws, hws⟩ := jumpDataWords_head E s h
  rw [hws] at hat
  obtain ⟨hg₀, _, hg₁, _⟩ := hat
  refine ⟨hi, lo, ?_, ?_, hU⟩
  · rw [hg₀, decode_lis]
    exact congrArg _ hl₀
  · rw [hg₁, decode_lwz]
    exact congrArg _ hl₁

theorem generated_loadsR11 {E : Env} {s : State} {r : PatchedFunctionData} {w₀ w₁ U : Word}
    (hcode : UpidCode w₀ w₁ U) (hlive : UpidIntact E s w₀ w₁) (h : r.targetProcess ≠ .all) :
    LoadsR11 (generatedWords E s r) r.jumpData U := by
  have hlen := jumpDataWords_length E s r
  apply loadsR11_of_at hcode hlive h (K := fun _ => True)
  unfold generatedWords
  rw [if_pos (.inr h)]
  exact at_storeWords (by omega)

/-! ## Allocations apart -/

/-- `MEMAllocFromExpHeapEx` hands out memory that lies in no block in use. -/
def Env.AllocatesApart (E : Env) : Prop :=
  ∀ blocks size, E.memAllocFromExpHeapEx blocks size ≠ 0 → ∀ b ∈ blocks, ∀ x,
    inBlock (E.memAllocFromExpHeapEx blocks size, size) x → ¬ inBlock b x

def Apart (bs cs : List (Word × Nat)) : Prop := ∀ b ∈ bs, ∀ c ∈ cs, ∀ x, inBlock b x → ¬ inBlock c x

theorem mem_buffersOf {r : PatchedFunctionData} {b : Word × Nat} :
    b ∈ buffersOf r ↔ b.1 ≠ 0 ∧ (b = (r.jumpToOriginal, 5) ∨ b = (r.jumpData, 15)) := by
  unfold buffersOf
  simp only [List.mem_filter, List.mem_cons, List.not_mem_nil, or_false, decide_eq_true_eq]
  exact and_comm

section
variable {E : Env} {s s₁ : State} {p : Word} {b : Bool} {bs : List (Word × Nat)}

theorem allocateJumpToOriginal_apart (hE : E.AllocatesApart) (hbs : ∀ c ∈ bs, c ∈ s.jumpHeap.blocks)
    (hd : (s.objects p).jumpData ≠ 0 → Apart [((s.objects p).jumpData, 15)] bs)
    (h : allocateJumpToOriginal E s p = (b, s₁)) : Apart (buffersOf (s₁.objects p)) bs := by
  unfold allocateJumpToOriginal at h
  by_cases ha : E.memAllocFromExpHeapEx s.jumpHeap.blocks 5 = 0
  · simp only [memAllocFromExpHeapEx_zero ha] at h
    cases h
    intro c hc
    rw [mem_buffersOf, setObject_objects_self] at hc
    obtain ⟨h0, rfl | rfl⟩ := hc
    · exact absurd rfl h0
    · exact hd h0 _ (List.mem_singleton_self _)
  · simp only [memAllocFromExpHeapEx_block rfl ha] at h
    cases h
    intro c hc
    rw [mem_buffersOf, setObject_objects_self] at hc
    obtain ⟨h0, rfl | rfl⟩ := hc
    · intro c hc x hx
      exact hE _ _ ha c (hbs c hc) x hx
    · exact hd h0 _ (List.mem_singleton_self _)

theorem allocateDataForJumps_apart (hE : E.AllocatesApart) (hd : (s.objects p).jumpData = 0)
    (ho : (s.objects p).jumpToOriginal = 0) (h : allocateDataForJumps E s p = (b, s₁)) :
    Apart (buffersOf (s₁.objects p)) s.jumpHeap.blocks := by
  unfold allocateDataForJumps at h
  rw [if_neg (by simp [hd])] at h
  unfold allocateJumpData at h
  by_cases hn : NeedsJumpData (s.objects p)
  · have hn' : 0x01FFFFFC < (s.objects p).replacementFunctionAddress ∨ (s.objects p).targetProcess ≠ .all := hn
    simp only [if_pos hn'] at h
    by_cases ha : E.memAllocFromExpHeapEx s.jumpHeap.blocks 15 = 0
    · simp only [memAllocFromExpHeapEx_zero ha] at h
      cases h
      intro c hc
      rw [mem_buffersOf, setObject_objects_self] at hc
      obtain ⟨h0, rfl | rfl⟩ := hc
      · exact absurd ho h0
      · exact absurd rfl h0
    · simp only [memAllocFromExpHeapEx_block rfl ha, decide_eq_true ha] at h
      refine allocateJumpToOriginal_apart hE ?_ ?_ h
      · intro c hc
        exact List.mem_cons_of_mem _ hc
      · rw [setObject_objects_self]
        intro _ c hc d hd' x hx
        rw [List.mem_singleton.mp hc] at hx
        exact hE _ _ ha d hd' x hx
  · have hn' : ¬ (0x01FFFFFC < (s.objects p).replacementFunctionAddress ∨ (s.objects p).targetProcess ≠ .all) := hn
    simp only [if_neg hn'] at h
    exact allocateJumpToOriginal_apart hE (fun c hc => hc) (fun h0 => absurd hd h0) h

end

/-! ## Runs of registrations -/

def FiltersLoad (s : State) (U : Word) : Prop :=
  ∀ p ∈ s.gPatchedFunctions, (s.objects p).isPatched = true → (s.objects p).targetProcess ≠ .all →
    LoadsR11 s.jumpHeap.words (s.objects p).jumpData U

/-- A registration that generates a filter only while the code of `OSGetUPID` is intact. -/
inductive FilterStep (mmu : Word → Word) (osGetUPID w₀ w₁ : Word) : State → State → Prop
  | add {s s' : State} (E : Env) (fd : Option FunctionReplacementData) (res : AddResult) :
      E.mmu = mmu → E.osGetUPID = osGetUPID → E.AllocatesFresh → E.AllocatesApart →
      E.newObject ∉ s.gPatchedFunctions →
      (∀ d effective physical, fd = some d → (recordOf d).targetProcess ≠ .all →
        targetOf E (allocated E s d) E.newObject = some (effective, physical) → UpidIntact E s w₀ w₁) →
      fpAddFunctionPatch E s fd = .ok (res, s') → FilterStep mmu osGetUPID w₀ w₁ s s'

section
variable {mmu : Word → Word} {osGetUPID w₀ w₁ U : Word} {s s' : State}

theorem FiltersLoad.congr (bs : List (Word × Nat)) (hf : FiltersLoad s U) (hs : HeapAccounted s)
    (hl : s'.gPatchedFunctions = s.gPatchedFunctions) (ho : ∀ q ∈ s.gPatchedFunctions, s'.objects q = s.objects q)
    (hbs : Apart bs s.jumpHeap.blocks)
    (hw : ∀ x, (∀ b ∈ bs, ¬ inBlock b x) → s'.jumpHeap.words x = s.jumpHeap.words x) : FiltersLoad s' U := by
  intro q hq hqp hqt
  rw [hl] at hq
  rw [ho q hq] at hqp hqt ⊢
  have hjd : (s.objects q).jumpData ≠ 0 := (hs.complete q hq).jumpData.mpr (.inr hqt)
  have hblock : ((s.objects q).jumpData, 15) ∈ s.jumpHeap.blocks := by
    rw [hs.owned.mem_iff]
    exact List.mem_flatMap.mpr ⟨q, hq, mem_buffersOf.mpr ⟨hjd, .inr rfl⟩⟩
  have hkeep : ∀ x, inBlock ((s.objects q).jumpData, 15) x → s'.jumpHeap.words x = s.jumpHeap.words x := by
    intro x hx
    apply hw
    intro b hb hbx
    exact hbs b hb _ hblock x hbx hx
  obtain ⟨hi, lo, h₀, h₁, hU⟩ := hf q hq hqp hqt
  refine ⟨hi, lo, ?_, ?_, hU⟩
  · rw [hkeep _ ⟨0, by simp, by simp⟩]
    exact h₀
  · rw [hkeep ((s.objects q).jumpData + 4) ⟨1, by simp, rfl⟩]
    exact h₁

/-- A registration leaves the filters that are there, and the one it generates loads the id. -/
theorem FilterStep.preserves (hcode : UpidCode w₀ w₁ U) (hstep : FilterStep mmu osGetUPID w₀ w₁ s s')
    (hs : HeapAccounted s) (hf : FiltersLoad s U) : HeapAccounted s' ∧ FiltersLoad s' U := by
  obtain ⟨E, fd, res, _, _, hE, hapart, hnew, hc, hrun⟩ := hstep
  refine ⟨hs.add hE hnew hrun, ?_⟩
  have hne : ∀ q ∈ s.gPatchedFunctions, q ≠ E.newObject := fun q hq e => hnew (e ▸ hq)
  rcases fpAddFunctionPatch_ok hrun with ⟨_, rfl | ⟨d, s₁, _, ha, rfl⟩⟩ | ⟨_, _, d, b, s₁, s₂, hd, ha, hp, rfl⟩
  · exact hf
  · -- a failed add leaves the words alone
    refine hf.congr [] hs ((destroy_frame _ _).list.trans (allocateDataForJumps_frame ha).list) ?_ ?_ ?_
    · intro q hq
      rw [(destroy_frame _ _).objects_ne (hne q hq), (allocateDataForJumps_frame ha).objects_ne (hne q hq)]
      exact setObject_objects_ne _ _ _ (hne q hq)
    · intro b hb
      cases hb
    · intro x _
      rw [(destroy_frame _ _).words, (allocateDataForJumps_frame ha).words]
      rfl
  have hfresh := recordOf_fresh d
  have hr : (constructed E s d).objects E.newObject = recordOf d := setObject_objects_self ..
  have hbuf : Apart (buffersOf (s₁.objects E.newObject)) s.jumpHeap.blocks := by
    have hd : ((constructed E s d).objects E.newObject).jumpData = 0 := by rw [hr]; exact hfresh.2.1
    have ho : ((constructed E s d).objects E.newObject).jumpToOriginal = 0 := by rw [hr]; exact hfresh.2.2
    have := allocateDataForJumps_apart hapart hd ho ha
    exact this
  obtain ⟨_, _, hcomplete⟩ := construct_accounts hs hE ha
  have hcomplete := hcomplete rfl
  have hwords : s₁.jumpHeap.words = s.jumpHeap.words := (allocateDataForJumps_frame ha).words
  have hlist : s₁.gPatchedFunctions = s.gPatchedFunctions := (allocateDataForJumps_frame ha).list
  have e : s₁ = allocated E s d := eq_allocated ha
  have hold : ∀ q ∈ s.gPatchedFunctions, s₁.objects q = s.objects q := by
    intro q hq
    rw [e]
    exact (allocated_spec E s d).2.2.1 q (hne q hq)
  have hun : (s₁.objects E.newObject).isPatched = false := by
    rw [e]
    exact allocated_unpatched E s d
  intro q hq
  have hmem : q ∈ s.gPatchedFunctions ∨ q = E.newObject := by
    rw [← hlist, ← patchFunction_list hp]
    exact (List.mem_append.mp hq).imp_right List.mem_singleton.mp
  show (s₂.objects q).isPatched = true → (s₂.objects q).targetProcess ≠ .all →
    LoadsR11 s₂.jumpHeap.words (s₂.objects q).jumpData U
  rcases patchFunction_ok hp with ⟨hp', _⟩ | ⟨_, _, P, calls, rfl⟩ | ⟨_, A, hA, rfl⟩
  · rw [hun] at hp'
    cases hp'
  · -- the record waits
    rcases hmem with hq | rfl
    · have hwait : FiltersLoad s₁ U :=
        hf.congr [] hs hlist hold (fun b hb => by cases hb) (fun x _ => congrFun hwords x)
      exact hwait q (hlist ▸ hq)
    · intro hqp
      have hqp : (s₁.objects E.newObject).isPatched = true := hqp
      rw [hun] at hqp
      cases hqp
  · rcases hmem with hq | rfl
    · have hres : FiltersLoad (A.result E s₁ E.newObject) U := by
        refine hf.congr _ hs hlist ?_ hbuf ?_
        · intro q hq
          exact (Function.update_of_ne (hne q hq) ..).trans (hold q hq)
        · intro x hx
          show generatedWords E s₁ (A.record s₁ E.newObject) x = _
          rw [generatedWords_of_not_inBlock, hwords]
          · exact hx _ (mem_buffersOf.mpr ⟨hcomplete.jumpToOriginal, .inl rfl⟩)
          · intro h0
            exact hx _ (mem_buffersOf.mpr ⟨h0, .inr rfl⟩)
          · exact hcomplete.jumpData.mpr
      exact hres q (hlist ▸ hq)
    · have hself : (A.result E s₁ E.newObject).objects E.newObject = A.record s₁ E.newObject :=
        A.result_objects_self E _ _
      rw [hself]
      intro _ hqt
      have hlive : UpidIntact E s₁ w₀ w₁ := by
        have ht : (recordOf d).targetProcess ≠ .all := by
          obtain ⟨_, _, _, jd, jo, n, hrec⟩ := allocated_spec E s d
          have : (A.record s₁ E.newObject).targetProcess = (recordOf d).targetProcess := by
            show (s₁.objects E.newObject).targetProcess = _
            rw [e, hrec]
          rwa [this] at hqt
        have := hc d A.effective A.physical hd ht (e ▸ hA.target)
        have hm : s₁.mem = s.mem := (allocateDataForJumps_frame ha).mem_eq
        unfold UpidIntact load at this ⊢
        rw [hm]
        exact this
      exact generated_loadsR11 hcode hlive hqt

end

/-- **Process filters.** In every state of every run of registrations that generate filters only
while the code of `OSGetUPID` is intact, every filter loads the process id from where the unpatched
function does. -/
theorem filtersLoad_of_steps {mmu : Word → Word} {osGetUPID U : Word} {s₀ s : State} (h₀ : s₀.Initial)
    (hcode : UpidCode (s₀.mem (mmu osGetUPID)) (s₀.mem (mmu (osGetUPID + 4))) U)
    (hrun : Relation.ReflTransGen
      (FilterStep mmu osGetUPID (s₀.mem (mmu osGetUPID)) (s₀.mem (mmu (osGetUPID + 4)))) s₀ s) :
    FiltersLoad s U := by
  have hinv : HeapAccounted s ∧ FiltersLoad s U := by
    induction hrun with
    | refl =>
      refine ⟨heapAccounted_of_steps h₀ .refl, ?_⟩
      intro p hp
      rw [h₀.empty] at hp
      cases hp
    | tail _ step ih => exact step.preserves hcode ih.1 ih.2
  exact hinv.2

/-- Memory with `lis r9, 0x1000` and `lwz r3, 0xd60(r9)` as the code of `OSGetUPID`. -/
def upidState : State :=
  { plainState 0x7c0802a6 with
    mem := fun a => if a = 0x02000800 then 0x3d201000 else if a = 0x02000804 then 0x80690d60 else 0x7c0802a6 }

theorem upidState_code : UpidCode (upidState.mem 0x02000800) (upidState.mem 0x02000804) 0x10000d60 :=
  ⟨9, 0x1000, 0x0d60, by decide, by decide, by decide⟩

def apartEnv (p : Word) : Env :=
  { plainEnv p false with
    memAllocFromExpHeapEx := fun blocks size =>
      let a := (plainEnv p false).memAllocFromExpHeapEx blocks size
      if ∀ b ∈ blocks, ∀ i < size, ∀ j < b.2, a + BitVec.ofNat 32 (4 * i) ≠ b.1 + BitVec.ofNat 32 (4 * j) then a
      else 0 }

theorem apartEnv_allocatesFresh (p : Word) : (apartEnv p).AllocatesFresh := by
  intro blocks size h
  simp only [apartEnv] at h ⊢
  split at h
  · rename_i hc
    rw [if_pos hc]
    exact plainEnv_allocatesFresh p false blocks size h
  · exact absurd rfl h

theorem apartEnv_allocatesApart (p : Word) : (apartEnv p).AllocatesApart := by
  intro blocks size h b hb x hx hbx
  simp only [apartEnv] at h hx
  split at h
  · rename_i hc
    rw [if_pos hc] at hx
    obtain ⟨i, hi, e⟩ := hx
    obtain ⟨j, hj, e'⟩ := hbx
    exact hc b hb i hi j hj (e.symm.trans e')
  · exact absurd rfl h

/-- One function is patched in all processes, then another in games and the menu. -/
def patchedInAll : State :=
  afterPass upidState ((plainPatch .other 0x02000500 0x10001000 .all).run (apartEnv 0x10) upidState)

def patchedInGames : State :=
  afterPass patchedInAll ((plainPatch .other 0x02000400 0x2000 .gameAndMenu).run (apartEnv 0x20) patchedInAll)

theorem filtersLoad_of_steps_two :
    patchedInGames.gPatchedFunctions = [0x10, 0x20] ∧ (patchedInGames.objects 0x20).targetProcess = .gameAndMenu ∧
    FiltersLoad patchedInGames 0x10000d60 := by
  refine ⟨by decide +kernel, by decide +kernel, ?_⟩
  have hrun₁ : (plainPatch .other 0x02000500 0x10001000 .all).run (apartEnv 0x10) upidState = .ok patchedInAll :=
    eq_ok_afterPass (by decide +kernel)
  have hrun₂ : (plainPatch .other 0x02000400 0x2000 .gameAndMenu).run (apartEnv 0x20) patchedInAll =
      .ok patchedInGames := eq_ok_afterPass (by decide +kernel)
  obtain ⟨res₁, hadd₁⟩ := Event.run_ok_add hrun₁
  obtain ⟨res₂, hadd₂⟩ := Event.run_ok_add hrun₂
  have h₁ : FilterStep id 0x02000800 (upidState.mem 0x02000800) (upidState.mem 0x02000804) upidState patchedInAll :=
    .add (apartEnv 0x10) _ res₁ rfl rfl (apartEnv_allocatesFresh _) (apartEnv_allocatesApart _) List.not_mem_nil
      (fun _ _ _ _ _ _ => ⟨rfl, rfl⟩) hadd₁
  have hintact : UpidIntact (apartEnv 0x20) patchedInAll (upidState.mem 0x02000800) (upidState.mem 0x02000804) :=
    ⟨by decide +kernel, by decide +kernel⟩
  have h₂ : FilterStep id 0x02000800 (upidState.mem 0x02000800) (upidState.mem 0x02000804) patchedInAll patchedInGames :=
    .add (apartEnv 0x20) _ res₂ rfl rfl (apartEnv_allocatesFresh _) (apartEnv_allocatesApart _) (by decide +kernel)
      (fun _ _ _ _ _ _ => hintact) hadd₂
  exact @filtersLoad_of_steps id 0x02000800 0x10000d60 upidState patchedInGames ⟨rfl, rfl, rfl, rfl, rfl⟩ upidState_code
    (.tail (.single h₁) h₂)

/-- `OSGetUPID` itself is patched before a function of the menu and of games. -/
def upidPatchedFirst : List (Env × Event) :=
  [(plainEnv 0x10 false, plainPatch .other 0x02000800 0x1000 .all),
   (plainEnv 0x20 false, plainPatch .other 0x02000400 0x2000 .gameAndMenu)]

theorem upidPatchedFirst_not_filtersLoad :
    UpidCode (upidState.mem 0x02000800) (upidState.mem 0x02000804) 0x10000d60 ∧
    (execute upidState upidPatchedFirst).isSome = true ∧
    ¬ FiltersLoad (ran upidState upidPatchedFirst) 0x10000d60 := by
  refine ⟨upidState_code, by decide +kernel, fun H => ?_⟩
  obtain ⟨hi, lo, h₀, h₁, hU⟩ := H 0x20 (by decide +kernel) (by decide +kernel) (by decide +kernel)
  have e₀ : decode ((ran upidState upidPatchedFirst).jumpHeap.words
      ((ran upidState upidPatchedFirst).objects 0x20).jumpData) = .addis 11 0 0x1002 := by decide +kernel
  have e₁ : decode ((ran upidState upidPatchedFirst).jumpHeap.words
      (((ran upidState upidPatchedFirst).objects 0x20).jumpData + 4)) = .lwz 11 11 0x0d60 := by decide +kernel
  rw [e₀] at h₀
  rw [e₁] at h₁
  cases h₀
  cases h₁
  revert hU
  decide

end FunctionPatcher
