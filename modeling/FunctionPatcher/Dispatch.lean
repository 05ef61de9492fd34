import FunctionPatcher.Layout

/-!
# Dispatch through a chain of patches

Records applied one after the other to one function, latest first. Each keeps
the jump of the one before it as the instruction it replaced, so control passes
from record to record until one is for the process.
-/

namespace FunctionPatcher

open PowerPC (Machine decode exec At Aligned RunOf)

/-! ## Chains -/

/-- The function that is patched, and what all calls agree on. -/
structure Site where
  mmu : Word → Word
  osGetUPID : Word
  fpTargetProcessWiiUMenu : Word
  fpTargetProcessGame : Word
  effective : Word
  physical : Word

structure Site.Admits (T : Site) (E : Env) : Prop where
  mmu : E.mmu = T.mmu
  osGetUPID : E.osGetUPID = T.osGetUPID
  menu : E.fpTargetProcessWiiUMenu = T.fpTargetProcessWiiUMenu
  game : E.fpTargetProcessGame = T.fpTargetProcessGame
  writes : E.Writes

/-- Records applied to the function of the site, latest first. What happens in between leaves these
records, memory and the generated words alone. -/
inductive Chain (T : Site) (s₀ : State) : List Word → State → Prop
  | nil : Chain T s₀ [] s₀
  | patch {ps : List Word} {s s' : State} (E : Env) (p : Word) : Chain T s₀ ps s → T.Admits E →
      (s.objects p).isPatched = false → patchFunction E s p = .ok (true, s') →
      (s'.objects p).realEffectiveFunctionAddress = T.effective →
      (s'.objects p).realPhysicalFunctionAddress = T.physical → Chain T s₀ (p :: ps) s'
  | other {ps : List Word} {s s' : State} : Chain T s₀ ps s → (∀ q ∈ ps, s'.objects q = s.objects q) →
      s'.mem = s.mem → s'.replaceCalls = s.replaceCalls → s'.jumpHeap.words = s.jumpHeap.words → Chain T s₀ ps s'

def BlocksApart (b c : Word × Nat) : Prop := ∀ x, inBlock b x → ¬ inBlock c x

/-- What the clients and the allocator promise about the records. -/
structure Site.Sound (T : Site) (rs : List PatchedFunctionData) : Prop where
  replacement : ∀ r ∈ rs, Aligned r.replacementFunctionAddress
  processId : ∀ r ∈ rs, ∀ t, r.targetProcess = .upid t → t < 0x8000
  replaceCalls : (rs.map fun r => r.realCallFunctionAddressPtr).Nodup
  buffers : (rs.flatMap buffersOf).Pairwise BlocksApart
  outside : ∀ b ∈ rs.flatMap buffersOf, ¬ inBlock b T.effective

theorem Site.Sound.tail {T : Site} {r : PatchedFunctionData} {rs : List PatchedFunctionData} (h : T.Sound (r :: rs)) :
    T.Sound rs := by
  have hb := h.buffers
  have hc := h.replaceCalls
  rw [List.flatMap_cons] at hb
  rw [List.map_cons] at hc
  refine ⟨?_, ?_, hc.of_cons, (List.pairwise_append.mp hb).2.1, ?_⟩
  · intro q hq
    exact h.replacement q (List.mem_cons_of_mem _ hq)
  · intro q hq
    exact h.processId q (List.mem_cons_of_mem _ hq)
  · intro b hb
    apply h.outside b
    rw [List.flatMap_cons]
    exact List.mem_append_right _ hb

def entryWord (original : Word) : List PatchedFunctionData → Word
  | [] => original
  | r :: _ => jumpInstruction r

def Replaces (original : Word) : List PatchedFunctionData → Prop
  | [] => True
  | r :: rs => r.replacedInstruction = entryWord original rs ∧ Replaces original rs

/-- Both generators have run for the record and its words are still there. -/
structure Generated (T : Site) (U : Word) (words : Word → Word) (r : PatchedFunctionData) : Prop where
  effective : r.realEffectiveFunctionAddress = T.effective
  allocated : Allocated r
  toOriginal : At words (fun _ => True) r.jumpToOriginal (jumpToOriginalWords r)
  data : NeedsJumpData r → ∃ E s, E.fpTargetProcessWiiUMenu = T.fpTargetProcessWiiUMenu ∧
    E.fpTargetProcessGame = T.fpTargetProcessGame ∧ At words (fun _ => True) r.jumpData (jumpDataWords E s r)
  loads : r.targetProcess ≠ .all → LoadsR11 words r.jumpData U

section
variable {T : Site} {U : Word} {words words' : Word → Word} {r : PatchedFunctionData}

theorem Generated.toOriginal_mem (h : Generated T U words r) : (r.jumpToOriginal, 5) ∈ buffersOf r :=
  mem_buffersOf.mpr ⟨h.allocated.jumpToOriginal, .inl rfl⟩

theorem Generated.data_mem (h : Generated T U words r) (hn : NeedsJumpData r) : (r.jumpData, 15) ∈ buffersOf r :=
  mem_buffersOf.mpr ⟨(h.allocated.jumpData hn).1, .inr rfl⟩

theorem Generated.congr (h : Generated T U words r) (hw : ∀ b ∈ buffersOf r, ∀ x, inBlock b x → words' x = words x) :
    Generated T U words' r := by
  refine ⟨h.effective, h.allocated, ?_, ?_, ?_⟩
  · apply at_congr h.toOriginal
    intro x hx
    exact ⟨hw _ h.toOriginal_mem x (inBlock_mono (jumpToOriginalWords_length r) hx), trivial⟩
  · intro hn
    obtain ⟨E, s, hm, hg, hat⟩ := h.data hn
    refine ⟨E, s, hm, hg, at_congr hat ?_⟩
    intro x hx
    exact ⟨hw _ (h.data_mem hn) x (inBlock_mono (jumpDataWords_length E s r) hx), trivial⟩
  · intro hall
    have hn : NeedsJumpData r := .inr hall
    obtain ⟨hi, lo, h₀, h₁, hU⟩ := h.loads hall
    refine ⟨hi, lo, ?_, ?_, hU⟩
    · rw [hw _ (h.data_mem hn) _ (inBlock_head _ 14)]
      exact h₀
    · rw [hw _ (h.data_mem hn) _ (inBlock_tail (inBlock_head _ 13))]
      exact h₁

end

theorem buffersOf_pair {r : PatchedFunctionData} (ho : r.jumpToOriginal ≠ 0) (hd : r.jumpData ≠ 0) :
    buffersOf r = [(r.jumpToOriginal, 5), (r.jumpData, 15)] := by
  unfold buffersOf
  rw [List.filter_eq_self]
  intro b hb
  rcases List.mem_cons.mp hb with rfl | hb
  · exact decide_eq_true ho
  · rw [List.mem_singleton.mp hb]
    exact decide_eq_true hd

theorem toOriginal_of_application {E : Env} {s : State} {p : Word} {A : Application} (hA : A.Valid E s p)
    (hown : (buffersOf (A.record s p)).Pairwise BlocksApart) :
    At (generatedWords E s (A.record s p)) (fun _ => True) (A.record s p).jumpToOriginal
      (jumpToOriginalWords (A.record s p)) := by
  have hlen := jumpToOriginalWords_length (A.record s p)
  apply at_congr (at_storeWords (f := s.jumpHeap.words) (by omega))
  intro x hx
  refine ⟨?_, trivial⟩
  unfold generatedWords
  split
  · rename_i hn
    apply storeWords_of_not_inBlock
    intro hxd
    have hb : buffersOf (A.record s p) = [((A.record s p).jumpToOriginal, 5), ((A.record s p).jumpData, 15)] :=
      buffersOf_pair hA.allocated.jumpToOriginal (hA.allocated.jumpData hn).1
    rw [hb, List.pairwise_pair] at hown
    exact hown x (inBlock_mono hlen hx) (inBlock_mono (jumpDataWords_length E s _) hxd)
  · rfl

theorem generated_of_application {T : Site} {U : Word} {E : Env} {s : State} {p : Word} {A : Application} {w₀ w₁ : Word}
    (hm : E.fpTargetProcessWiiUMenu = T.fpTargetProcessWiiUMenu) (hg : E.fpTargetProcessGame = T.fpTargetProcessGame)
    (hA : A.Valid E s p) (heff : A.effective = T.effective) (hcode : UpidCode w₀ w₁ U)
    (hlive : UpidIntact E s w₀ w₁) (hown : (buffersOf (A.record s p)).Pairwise BlocksApart) :
    Generated T U (generatedWords E s (A.record s p)) (A.record s p) := by
  refine ⟨heff, ⟨hA.allocated.1, hA.allocated.2⟩, toOriginal_of_application hA hown, ?_, generated_loadsR11 hcode hlive⟩
  intro hn
  refine ⟨E, s, hm, hg, ?_⟩
  have hlen := jumpDataWords_length E s (A.record s p)
  have hn : 0x01FFFFFC < (A.record s p).replacementFunctionAddress ∨ (A.record s p).targetProcess ≠ .all := hn
  unfold generatedWords
  rw [if_pos hn]
  exact at_storeWords (by omega)

/-- What a chain leaves: memory differs at the function only, each record keeps the word of the
ones before it, and all words generated so far are still there. -/
structure Stacked (T : Site) (s₀ : State) (U : Word) (ps : List Word) (s : State) : Prop where
  entry : s.mem T.physical = entryWord (s₀.mem T.physical) (ps.map s.objects)
  elsewhere : ∀ a, a ≠ T.physical → s.mem a = s₀.mem a
  replaces : Replaces (s₀.mem T.physical) (ps.map s.objects)
  generated : ∀ q ∈ ps, Generated T U s.jumpHeap.words (s.objects q)
  replaceCalls : ∀ q ∈ ps, s.replaceCalls (s.objects q).realCallFunctionAddressPtr = (s.objects q).jumpToOriginal

theorem map_objects_eq {s s' : State} {ps : List Word} (h : ∀ q ∈ ps, s'.objects q = s.objects q) :
    ps.map s'.objects = ps.map s.objects := List.map_congr_left h

section
variable {T : Site} {s₀ s s' : State} {U : Word} {ps : List Word}

theorem Stacked.other (h : Stacked T s₀ U ps s) (ho : ∀ q ∈ ps, s'.objects q = s.objects q) (hm : s'.mem = s.mem)
    (hc : s'.replaceCalls = s.replaceCalls) (hw : s'.jumpHeap.words = s.jumpHeap.words) : Stacked T s₀ U ps s' := by
  have hmap := map_objects_eq ho
  refine ⟨?_, ?_, ?_, ?_, ?_⟩
  · rw [hm, hmap]
    exact h.entry
  · rw [hm]
    exact h.elsewhere
  · rw [hmap]
    exact h.replaces
  · intro q hq
    rw [ho q hq, hw]
    exact h.generated q hq
  · intro q hq
    rw [ho q hq, hc]
    exact h.replaceCalls q hq

/-- **Step lemma**: one more record on top. -/
theorem Stacked.patch {E : Env} {p : Word} {A : Application} (h : Stacked T s₀ U ps s) (hE : T.Admits E)
    (hnew : ∀ q ∈ ps, q ≠ p) (hA : A.Valid E s p) (heff : A.effective = T.effective) (hphys : A.physical = T.physical)
    (hsound : T.Sound (A.record s p :: ps.map s.objects))
    (hupid : UpidCode (s₀.mem (T.mmu T.osGetUPID)) (s₀.mem (T.mmu (T.osGetUPID + 4))) U)
    (hne : T.mmu T.osGetUPID ≠ T.physical) (hne' : T.mmu (T.osGetUPID + 4) ≠ T.physical) :
    Stacked T s₀ U (p :: ps) (A.result E s p) := by
  have hself := A.result_objects_self E s p
  have hold : ∀ q ∈ ps, (A.result E s p).objects q = s.objects q := fun q hq => A.result_objects_ne E s (hnew q hq)
  have hmap := map_objects_eq hold
  have hwritten : A.written = jumpInstruction (A.record s p) := hA.written hE.writes
  have hbuffers := hsound.buffers
  rw [List.flatMap_cons, List.pairwise_append] at hbuffers
  obtain ⟨hown, _, hapart⟩ := hbuffers
  have hslots := hsound.replaceCalls
  rw [List.map_cons, List.nodup_cons] at hslots
  have hlive : UpidIntact E s (s₀.mem (T.mmu T.osGetUPID)) (s₀.mem (T.mmu (T.osGetUPID + 4))) := by
    unfold UpidIntact load
    rw [hE.mmu, hE.osGetUPID, h.elsewhere _ hne, h.elsewhere _ hne']
    exact ⟨rfl, rfl⟩
  have hgen := generated_of_application hE.menu hE.game hA heff hupid hlive hown
  refine ⟨?_, ?_, ?_, ?_, ?_⟩
  · rw [List.map_cons, hself, ← hphys]
    exact (Function.update_self ..).trans hwritten
  · intro a ha
    rw [← h.elsewhere a ha]
    exact Function.update_of_ne (hphys ▸ ha) ..
  · rw [List.map_cons, hself, hmap]
    refine ⟨?_, h.replaces⟩
    rw [← h.entry, ← hphys]
    rfl
  · intro q hq
    rcases List.mem_cons.mp hq with rfl | hq
    · rw [hself]
      exact hgen
    · rw [hold q hq]
      apply (h.generated q hq).congr
      intro b hb x hx
      have hout : ∀ c ∈ buffersOf (A.record s p), ¬ inBlock c x := by
        intro c hc hcx
        exact hapart c hc b (List.mem_flatMap.mpr ⟨_, List.mem_map_of_mem hq, hb⟩) x hcx hx
      apply generatedWords_of_not_inBlock
      · exact hout _ hgen.toOriginal_mem
      · intro h0
        exact hout _ (mem_buffersOf.mpr ⟨h0, .inr rfl⟩)
      · intro hn
        exact (hgen.allocated.jumpData hn).1
  · intro q hq
    rcases List.mem_cons.mp hq with rfl | hq
    · rw [hself]
      exact Function.update_self ..
    · rw [hold q hq, ← h.replaceCalls q hq]
      apply Function.update_of_ne
      intro e
      exact hslots.1 (List.mem_map.mpr ⟨s.objects q, List.mem_map_of_mem hq, e⟩)

theorem patchFunction_applies {E : Env} {p : Word} (hun : (s.objects p).isPatched = false)
    (hrun : patchFunction E s p = .ok (true, s')) : ∃ A : Application, A.Valid E s p ∧ s' = A.result E s p := by
  rcases patchFunction_ok hrun with ⟨hp, _⟩ | ⟨_, hb, _⟩ | ⟨_, h⟩
  · rw [hun] at hp
    cases hp
  · cases hb
  · exact h

theorem Chain.patched (hchain : Chain T s₀ ps s) : ∀ q ∈ ps, (s.objects q).isPatched = true := by
  induction hchain with
  | nil => simp
  | other _ ho _ _ _ ih =>
    intro q hq
    rw [ho q hq]
    exact ih q hq
  | @patch ps s s' E p _ _ hun hrun _ _ ih =>
    obtain ⟨A, _, rfl⟩ := patchFunction_applies hun hrun
    intro q hq
    by_cases hqp : q = p
    · rw [hqp, A.result_objects_self]
      rfl
    · have hq : q ∈ ps := (List.mem_cons.mp hq).resolve_left hqp
      rw [A.result_objects_ne E s hqp]
      exact ih q hq

theorem Chain.ne_of_unpatched {p : Word} (hchain : Chain T s₀ ps s) (hun : (s.objects p).isPatched = false) :
    ∀ q ∈ ps, q ≠ p := by
  intro q hq e
  have := hchain.patched q hq
  rw [e, hun] at this
  cases this

/-- **Run lemma.** -/
theorem Chain.stacked (hchain : Chain T s₀ ps s) (hsound : T.Sound (ps.map s.objects))
    (hupid : UpidCode (s₀.mem (T.mmu T.osGetUPID)) (s₀.mem (T.mmu (T.osGetUPID + 4))) U)
    (hne : T.mmu T.osGetUPID ≠ T.physical) (hne' : T.mmu (T.osGetUPID + 4) ≠ T.physical) :
    Stacked T s₀ U ps s := by
  induction hchain with
  | nil => exact ⟨rfl, fun _ _ => rfl, trivial, by simp, by simp⟩
  | other _ ho hm hc hw ih =>
    rw [map_objects_eq ho] at hsound
    exact (ih hsound).other ho hm hc hw
  | @patch ps s s' E p hchain hE hun hrun heff hphys ih =>
    obtain ⟨A, hA, rfl⟩ := patchFunction_applies hun hrun
    have hnew := hchain.ne_of_unpatched hun
    rw [A.result_objects_self] at heff hphys
    rw [List.map_cons, A.result_objects_self, map_objects_eq fun q hq => A.result_objects_ne E s (hnew q hq)] at hsound
    exact (ih hsound.tail).patch hE hnew hA heff hphys hsound hupid hne hne'

end

/-! ## Code -/

instance (b : Word × Nat) (x : Word) : Decidable (inBlock b x) :=
  inferInstanceAs (Decidable (∃ i < b.2, x = b.1 + BitVec.ofNat 32 (4 * i)))

def inBuffers (rs : List PatchedFunctionData) (x : Word) : Prop := ∃ b ∈ rs.flatMap buffersOf, inBlock b x

instance (rs : List PatchedFunctionData) (x : Word) : Decidable (inBuffers rs x) :=
  inferInstanceAs (Decidable (∃ b ∈ rs.flatMap buffersOf, inBlock b x))

/-- What the processor fetches: generated words in the buffers, memory elsewhere. -/
def fetch (T : Site) (s : State) (ps : List Word) (x : Word) : Word :=
  if inBuffers (ps.map s.objects) x then s.jumpHeap.words x else s.mem (T.mmu x)

def savedSlots (r : PatchedFunctionData) : List Word :=
  toOriginalSlot r :: if r.targetProcess = .all then [] else [dataSlot r]

/-- Where the original instruction stands: in the buffers of the first record, or still in place. -/
def originalSlots (f : Word) (rs : List PatchedFunctionData) : List Word :=
  match rs.getLast? with
  | none => [f]
  | some r => savedSlots r

/-- The addresses that control passes on its way: the function and the buffers, but for the original
instruction. -/
def OnTheWay (f : Word) (rs : List PatchedFunctionData) (x : Word) : Prop :=
  (x = f ∨ inBuffers rs x) ∧ x ∉ originalSlots f rs

/-- What becomes of control at `m`. The latest of the records `rs` that accepts `u` is reached, or the
original instruction is executed once and `f + 4` is reached. -/
def Dispatched (sem : Word → Machine → Machine) (code : Word → Word) (K : Word → Prop) (slots : List Word)
    (original f menu game u : Word) (rs : List PatchedFunctionData) (m : Machine) : Prop :=
  match rs.find? fun r => accepts menu game r.targetProcess u with
  | some r => ∃ m₁, RunOf sem code K m m₁ ∧ Kept m m₁ ∧ m₁.pc = r.replacementFunctionAddress
  | none => ∃ m₁ m₂, RunOf sem code K m m₁ ∧ Kept m m₁ ∧ m₁.pc ∈ slots ∧ code m₁.pc = original ∧
      RunOf sem code K (exec sem original m₁) m₂ ∧ Kept (exec sem original m₁) m₂ ∧ m₂.pc = f + 4

/-- The original instruction goes on to the next one, and leaves the CTR alone if the way back to
`f + 4` needs it. -/
def FallsThrough (sem : Word → Machine → Machine) (original f : Word) : Prop :=
  ∀ m, (exec sem original m).pc = m.pc + 4 ∧
    (shortBranchPossible (f + 4) = false → (exec sem original m).ctr = m.ctr)

/-- Behind the instruction at `m.pc`, control goes on to `next`, provided that the CTR is left alone
where it holds a far `next` already. -/
def Continues (sem : Word → Machine → Machine) (code : Word → Word) (K : Word → Prop) (next : Word) (m : Machine) :
    Prop :=
  ∀ m₁, m₁.pc = m.pc + 4 → (shortBranchPossible next = false → m₁.ctr = m.ctr) →
    ∃ m₂, RunOf sem code K m₁ m₂ ∧ Kept m₁ m₂ ∧ m₂.pc = next

def SlotsOf (K : Word → Prop) (slots : List Word) : List PatchedFunctionData → Prop
  | [] => True
  | r :: rs => (∀ x ∈ savedSlots r, if rs = [] then x ∈ slots else K x) ∧ SlotsOf K slots rs

section
variable {sem : Word → Machine → Machine} {code : Word → Word} {K : Word → Prop} {slots : List Word}
variable {original f menu game U u : Word} {rs : List PatchedFunctionData} {m : Machine}

theorem Dispatched.of_run {m₀ : Machine} (hrun : RunOf sem code K m₀ m) (hkept : Kept m₀ m)
    (h : Dispatched sem code K slots original f menu game u rs m) :
    Dispatched sem code K slots original f menu game u rs m₀ := by
  unfold Dispatched at h ⊢
  split at h
  · obtain ⟨m₁, hr, hk, hpc⟩ := h
    exact ⟨m₁, hrun.trans hr, hkept.trans hk, hpc⟩
  · obtain ⟨m₁, m₂, hr, hk, h⟩ := h
    exact ⟨m₁, m₂, hrun.trans hr, hkept.trans hk, h⟩

/-- **Executing the word of a chain**, wherever it stands: by induction on the chain, each record
passes control on to the word it replaced. -/
theorem dispatched_of_word (hmenu : menu < 0x8000) (hgame : game < 0x8000) (horig : FallsThrough sem original f)
    (hplaced : ∀ r ∈ rs, Placed code K menu game U r ∧ r.realEffectiveFunctionAddress = f)
    (hreplaces : Replaces original rs) (hslots : SlotsOf K slots rs) (hu : m.mem U = u)
    (hc : code m.pc = entryWord original rs) (hk : if rs = [] then m.pc ∈ slots else K m.pc)
    (hnext : Continues sem code K (f + 4) m) : Dispatched sem code K slots original f menu game u rs m := by
  induction rs generalizing m with
  | nil =>
    obtain ⟨hpc, hctr⟩ := horig m
    obtain ⟨m₂, hrun, hkept, hpc₂⟩ := hnext _ hpc hctr
    exact ⟨m, m₂, .refl, .refl m, hk, hc, hrun, hkept, hpc₂⟩
  | cons r rs ih =>
    obtain ⟨hp, heff⟩ := hplaced r List.mem_cons_self
    rw [if_neg (List.cons_ne_nil r rs)] at hk
    obtain ⟨m₁, hrun, hkept, hsorted⟩ := hp.run_jump sem hmenu hgame hc hk hu
    unfold Sorted at hsorted
    by_cases hacc : accepts menu game r.targetProcess u = true
    · rw [if_pos hacc] at hsorted
      simp only [Dispatched, List.find?_cons, hacc]
      exact ⟨m₁, hrun, hkept, hsorted⟩
    · rw [if_neg hacc] at hsorted
      obtain ⟨hall, hpc, hw, hback⟩ := hsorted
      have hslot : dataSlot r ∈ savedSlots r := by
        unfold savedSlots
        rw [if_neg hall]
        exact List.mem_cons_of_mem _ (List.mem_singleton_self _)
      have hrest : Dispatched sem code K slots original f menu game u rs m₁ := by
        apply ih (fun q hq => hplaced q (List.mem_cons_of_mem _ hq)) hreplaces.2 hslots.2
        · rw [hkept.mem]
          exact hu
        · rw [hpc, hw]
          exact hreplaces.1
        · rw [hpc]
          exact hslots.1 _ hslot
        · intro m₂ h₂ _
          rw [← heff]
          exact ⟨_, hback m₂ (by rw [h₂, hpc]), jumped_kept _ m₂, jumped_pc _ m₂⟩
      have hpass := hrest.of_run hrun hkept
      simp only [Dispatched, List.find?_cons, hacc]
      exact hpass

/-- **Entering `jumpToOriginal`** of the latest record of a chain. -/
theorem dispatched_of_toOriginal {r : PatchedFunctionData} (hmenu : menu < 0x8000) (hgame : game < 0x8000)
    (horig : FallsThrough sem original f)
    (hplaced : ∀ q ∈ r :: rs, Placed code K menu game U q ∧ q.realEffectiveFunctionAddress = f)
    (hreplaces : Replaces original (r :: rs)) (hslots : SlotsOf K slots (r :: rs)) (hu : m.mem U = u)
    (hpc : m.pc = r.jumpToOriginal) : Dispatched sem code K slots original f menu game u rs m := by
  obtain ⟨hp, heff⟩ := hplaced r List.mem_cons_self
  obtain ⟨m₁, hrun, hkept, hpc₁, hw, _, hctr⟩ := enter_toOriginal sem hp.toOriginal
    (fun x hx => hp.inToOriginal x (inBlock_mono (jumpToOriginalWords_length r) hx)) hpc
  apply Dispatched.of_run hrun hkept
  apply dispatched_of_word hmenu hgame horig (fun q hq => hplaced q (List.mem_cons_of_mem _ hq)) hreplaces.2 hslots.2
  · rw [hkept.mem]
    exact hu
  · rw [hpc₁, hw]
    exact hreplaces.1
  · rw [hpc₁]
    exact hslots.1 _ List.mem_cons_self
  · intro m₂ h₂ hkeep
    rw [← heff] at hkeep ⊢
    have hk : K (toOriginalSlot r + 4) := by
      apply hp.inToOriginal
      · exact toOriginalSlot_add_inBlock r
      · exact PowerPC.add_four_ne _
    refine ⟨_, run_resume sem hp.toOriginal hk (by rw [h₂, hpc₁]), resumed_kept _ m₂, resumed_pc hp.next ?_⟩
    intro hs
    rw [hkeep hs, hctr, hs]
    rfl

theorem Replaces.of_append {pre : List PatchedFunctionData} (h : Replaces original (pre ++ rs)) :
    Replaces original rs := by
  induction pre with
  | nil => exact h
  | cons r pre ih => exact ih h.2

end

/-! ## Layout -/

section
variable {T : Site} {s : State} {ps : List Word} {U f x : Word} {r : PatchedFunctionData}
variable {rs : List PatchedFunctionData} {words : Word → Word}

theorem mem_savedSlots : x ∈ savedSlots r ↔ x = toOriginalSlot r ∨ (r.targetProcess ≠ .all ∧ x = dataSlot r) := by
  unfold savedSlots
  by_cases hall : r.targetProcess = .all
  · simp [hall]
  · simp [hall]

theorem Generated.saved_inBuffer (h : Generated T U words r) (hx : x ∈ savedSlots r) :
    ∃ b ∈ buffersOf r, inBlock b x := by
  rcases mem_savedSlots.mp hx with rfl | ⟨hall, rfl⟩
  · exact ⟨_, h.toOriginal_mem, toOriginalSlot_inBlock r⟩
  · exact ⟨_, h.data_mem (.inr hall), dataSlot_inBlock r⟩

theorem Site.Sound.apart {pre post : List PatchedFunctionData} {q : PatchedFunctionData} {b c : Word × Nat}
    (h : T.Sound (pre ++ r :: post)) (hq : q ∈ post) (hb : b ∈ buffersOf r) (hc : c ∈ buffersOf q) :
    BlocksApart b c := by
  have hp := h.buffers
  rw [List.flatMap_append, List.flatMap_cons] at hp
  have hp := (List.pairwise_append.mp hp).2.1
  exact (List.pairwise_append.mp hp).2.2 b hb c (List.mem_flatMap.mpr ⟨q, hq, hc⟩)

theorem Site.Sound.own (h : T.Sound rs) (hr : r ∈ rs) : (buffersOf r).Pairwise BlocksApart := by
  obtain ⟨pre, post, rfl⟩ := List.append_of_mem hr
  have hp := h.buffers
  rw [List.flatMap_append, List.flatMap_cons] at hp
  exact (List.pairwise_append.mp (List.pairwise_append.mp hp).2.1).1

theorem mem_originalSlots (h : rs ≠ []) (hx : x ∈ originalSlots f rs) : x ∈ savedSlots (rs.getLast h) := by
  unfold originalSlots at hx
  rwa [List.getLast?_eq_some_getLast h] at hx

theorem onTheWay_of_buffer {b : Word × Nat} (hsound : T.Sound rs) (hgen : ∀ q ∈ rs, Generated T U words q)
    (hr : r ∈ rs) (hb : b ∈ buffersOf r) (hx : inBlock b x) (hs : x ∉ savedSlots r) : OnTheWay f rs x := by
  refine ⟨.inr ⟨b, List.mem_flatMap.mpr ⟨r, hr, hb⟩, hx⟩, ?_⟩
  intro ho
  have hne : rs ≠ [] := List.ne_nil_of_mem hr
  have hlast := mem_originalSlots hne ho
  obtain ⟨c, hc, hcx⟩ := (hgen _ (List.getLast_mem hne)).saved_inBuffer hlast
  obtain ⟨pre, post, e⟩ := List.append_of_mem hr
  by_cases hp : post = []
  · have : rs.getLast hne = r := by
      subst hp
      simp [e]
    exact hs (this ▸ hlast)
  · have hmem : rs.getLast hne ∈ post := by
      have : rs.getLast hne = post.getLast hp := by simp [e, hp]
      rw [this]
      exact List.getLast_mem hp
    exact (e ▸ hsound).apart hmem hb hc x hx hcx

theorem slotsOf_suffix (hsound : T.Sound rs) (hgen : ∀ q ∈ rs, Generated T U words q)
    (suf pre : List PatchedFunctionData) (e : rs = pre ++ suf) :
    SlotsOf (OnTheWay f rs) (originalSlots f rs) suf := by
  induction suf generalizing pre with
  | nil => exact trivial
  | cons r suf ih =>
    refine ⟨?_, ih (pre ++ [r]) (by simp [e])⟩
    have hr : r ∈ rs := by simp [e]
    have hne : rs ≠ [] := List.ne_nil_of_mem hr
    intro x hx
    obtain ⟨b, hb, hbx⟩ := (hgen r hr).saved_inBuffer hx
    by_cases hs : suf = []
    · rw [if_pos hs]
      have : rs.getLast? = some r := by simp [e, hs]
      unfold originalSlots
      rw [this]
      exact hx
    · rw [if_neg hs]
      refine ⟨.inr ⟨b, List.mem_flatMap.mpr ⟨r, hr, hb⟩, hbx⟩, ?_⟩
      intro ho
      have hlast := mem_originalSlots hne ho
      obtain ⟨c, hc, hcx⟩ := (hgen _ (List.getLast_mem hne)).saved_inBuffer hlast
      have hmem : rs.getLast hne ∈ suf := by
        have : rs.getLast hne = suf.getLast hs := by simp [e, hs]
        rw [this]
        exact List.getLast_mem hs
      exact (e ▸ hsound).apart hmem hb hc x hbx hcx

theorem fetch_of_inBuffers (h : inBuffers (ps.map s.objects) x) : fetch T s ps x = s.jumpHeap.words x := if_pos h

theorem fetch_at (hne : ¬ inBuffers (ps.map s.objects) x) : fetch T s ps x = s.mem (T.mmu x) := if_neg hne

theorem placed_of_generated (hsound : T.Sound (ps.map s.objects)) (halign : Aligned T.effective)
    (hgen : ∀ q ∈ ps.map s.objects, Generated T U s.jumpHeap.words q) (hr : r ∈ ps.map s.objects) :
    Placed (fetch T s ps) (OnTheWay T.effective (ps.map s.objects)) T.fpTargetProcessWiiUMenu T.fpTargetProcessGame U
      r := by
  have hg := hgen r hr
  have hfetch : Generated T U (fetch T s ps) r := by
    apply hg.congr
    intro b hb x hx
    exact fetch_of_inBuffers ⟨b, List.mem_flatMap.mpr ⟨r, hr, hb⟩, hx⟩
  have hown := hsound.own hr
  have hapart : NeedsJumpData r → BlocksApart (r.jumpToOriginal, 5) (r.jumpData, 15) := by
    intro hn
    have hb : buffersOf r = [(r.jumpToOriginal, 5), (r.jumpData, 15)] :=
      buffersOf_pair hg.allocated.jumpToOriginal (hg.allocated.jumpData hn).1
    rwa [hb, List.pairwise_pair] at hown
  have hnext : Aligned (r.realEffectiveFunctionAddress + 4) := by
    rw [hg.effective]
    exact halign.add_four
  refine ⟨hsound.replacement r hr, hnext, ?_, hfetch.toOriginal, ?_, ?_⟩
  · intro hn
    exact (hg.allocated.jumpData hn).2
  · intro x hx hne
    apply onTheWay_of_buffer hsound hgen hr hg.toOriginal_mem hx
    intro hs
    rcases mem_savedSlots.mp hs with h | ⟨hall, rfl⟩
    · exact hne h
    · exact hapart (.inr hall) _ hx (dataSlot_inBlock r)
  · intro hn
    obtain ⟨E, s', hm, hga, hat⟩ := hfetch.data hn
    refine ⟨hnext, hsound.processId r hr, hfetch.loads, E, s', hm, hga, hat, ?_⟩
    intro x hx hne
    have hx := inBlock_mono (jumpDataWords_length E s' r) hx
    apply onTheWay_of_buffer hsound hgen hr (hg.data_mem hn) hx
    intro hs
    rcases mem_savedSlots.mp hs with rfl | ⟨hall, h⟩
    · exact hapart hn _ (toOriginalSlot_inBlock r) hx
    · exact hne hall h

end

/-- **Dispatch.** Control that enters the function in process `u` reaches the latest record that
accepts `u`, control that enters through `*replaceCall` of a record the latest such record before
it, and where there is none the original instruction is executed once and `f + 4` is reached. -/
theorem dispatch {T : Site} {s₀ s : State} {ps : List Word} {U u : Word} {sem : Word → Machine → Machine} {m : Machine}
    (hchain : Chain T s₀ ps s) (hsound : T.Sound (ps.map s.objects)) (halign : Aligned T.effective)
    (hmmu : T.mmu T.effective = T.physical) (hmenu : T.fpTargetProcessWiiUMenu < 0x8000)
    (hgame : T.fpTargetProcessGame < 0x8000)
    (hupid : UpidCode (s₀.mem (T.mmu T.osGetUPID)) (s₀.mem (T.mmu (T.osGetUPID + 4))) U)
    (hne : T.mmu T.osGetUPID ≠ T.physical) (hne' : T.mmu (T.osGetUPID + 4) ≠ T.physical)
    (horig : FallsThrough sem (s₀.mem T.physical) T.effective) (hu : m.mem U = u) :
    (m.pc = T.effective →
      Dispatched sem (fetch T s ps) (OnTheWay T.effective (ps.map s.objects))
        (originalSlots T.effective (ps.map s.objects)) (s₀.mem T.physical) T.effective T.fpTargetProcessWiiUMenu
        T.fpTargetProcessGame u (ps.map s.objects) m) ∧
    ∀ later p earlier, ps = later ++ p :: earlier →
      m.pc = s.replaceCalls (s.objects p).realCallFunctionAddressPtr →
      Dispatched sem (fetch T s ps) (OnTheWay T.effective (ps.map s.objects))
        (originalSlots T.effective (ps.map s.objects)) (s₀.mem T.physical) T.effective T.fpTargetProcessWiiUMenu
        T.fpTargetProcessGame u (earlier.map s.objects) m := by
  have hst := hchain.stacked hsound hupid hne hne'
  have hgen : ∀ q ∈ ps.map s.objects, Generated T U s.jumpHeap.words q := by
    intro q hq
    obtain ⟨p, hp, rfl⟩ := List.mem_map.mp hq
    exact hst.generated p hp
  have hplaced : ∀ q ∈ ps.map s.objects,
      Placed (fetch T s ps) (OnTheWay T.effective (ps.map s.objects)) T.fpTargetProcessWiiUMenu T.fpTargetProcessGame U
        q ∧ q.realEffectiveFunctionAddress = T.effective :=
    fun q hq => ⟨placed_of_generated hsound halign hgen hq, (hgen q hq).effective⟩
  have hout : ¬ inBuffers (ps.map s.objects) T.effective := fun ⟨b, hb, hx⟩ => hsound.outside b hb hx
  refine ⟨?_, ?_⟩
  · intro hpc
    apply dispatched_of_word hmenu hgame horig hplaced hst.replaces (slotsOf_suffix hsound hgen _ [] rfl) hu
    · rw [hpc, fetch_at hout, hmmu]
      exact hst.entry
    · rw [hpc]
      split
      · rename_i he
        rw [he]
        exact List.mem_singleton_self _
      · rename_i he
        refine ⟨.inl rfl, ?_⟩
        intro ho
        have hlast := List.getLast_mem he
        obtain ⟨b, hb, hx⟩ := (hgen _ hlast).saved_inBuffer (mem_originalSlots he ho)
        exact hout ⟨b, List.mem_flatMap.mpr ⟨_, hlast, hb⟩, hx⟩
    · intro m₁ h₁ _
      exact ⟨m₁, .refl, .refl m₁, by rw [h₁, hpc]⟩
  · intro later p earlier e hpc
    have emap : ps.map s.objects = later.map s.objects ++ s.objects p :: earlier.map s.objects := by simp [e]
    have hreplaces := hst.replaces
    rw [emap] at hreplaces
    have hp : p ∈ ps := by simp [e]
    rw [hst.replaceCalls p hp] at hpc
    apply dispatched_of_toOriginal hmenu hgame horig (fun q hq => hplaced q ?_) hreplaces.of_append
      (slotsOf_suffix hsound hgen _ _ emap) hu hpc
    rw [emap]
    exact List.mem_append_right _ hq

/-! ## Two records on one far function -/

theorem blocksApart_of_indices {b c : Word × Nat}
    (h : ∀ i < b.2, ∀ j < c.2, b.1 + BitVec.ofNat 32 (4 * i) ≠ c.1 + BitVec.ofNat 32 (4 * j)) : BlocksApart b c := by
  intro x ⟨i, hi, e⟩ ⟨j, hj, e'⟩
  exact h i hi j hj (e.symm.trans e')

def twoSite : Site := ⟨id, 0x02000800, 2, 15, 0x02000400, 0x02000400⟩

def twoRecords : State :=
  { upidState with
    objects := fun p =>
      if p = 0x10 then
        { jumpToOriginal := 0x00900000, jumpData := 0x00900040, realEffectiveFunctionAddress := 0x02000400
          realPhysicalFunctionAddress := 0x02000400, realCallFunctionAddressPtr := 0x3000
          replacementFunctionAddress := 0x1000, library := some .other, targetProcess := .gameAndMenu }
      else
        { jumpToOriginal := 0x00900080, jumpData := 0x009000C0, realEffectiveFunctionAddress := 0x02000400
          realPhysicalFunctionAddress := 0x02000400, realCallFunctionAddressPtr := 0x3004
          replacementFunctionAddress := 0x03000000, library := some .other, targetProcess := .upid 15 } }

def onePatched : State := afterPatch twoRecords (patchFunction (plainEnv 0 false) twoRecords 0x10)

def twoPatched : State := afterPatch onePatched (patchFunction (plainEnv 0 false) onePatched 0x20)

theorem dispatch_two :
    Dispatched (fun _ m => { m with pc := m.pc + 4 }) (fetch twoSite twoPatched [0x20, 0x10])
      (OnTheWay 0x02000400 ([0x20, 0x10].map twoPatched.objects))
      (originalSlots 0x02000400 ([0x20, 0x10].map twoPatched.objects)) 0x7c0802a6 0x02000400 2 15 2
      ([0x20, 0x10].map twoPatched.objects) (machineAt 0x02000400 2) := by
  have h₁ := eq_ok_afterPatch (s := twoRecords) (x := patchFunction (plainEnv 0 false) twoRecords 0x10)
    (by decide +kernel)
  have h₂ := eq_ok_afterPatch (s := onePatched) (x := patchFunction (plainEnv 0 false) onePatched 0x20)
    (by decide +kernel)
  have hE : twoSite.Admits (plainEnv 0 false) := ⟨rfl, rfl, rfl, rfl, plainEnv_writes _ _⟩
  have hchain : Chain twoSite twoRecords [0x20, 0x10] twoPatched :=
    .patch _ _ (.patch _ _ .nil hE rfl h₁ (by decide +kernel) (by decide +kernel)) hE (by decide +kernel) h₂
      (by decide +kernel) (by decide +kernel)
  have hbuffers : ([0x20, 0x10].map twoPatched.objects).flatMap buffersOf =
      [(0x00900080, 5), (0x009000C0, 15), (0x00900000, 5), (0x00900040, 15)] := by decide +kernel
  have hsound : twoSite.Sound ([0x20, 0x10].map twoPatched.objects) := by
    have hr : ([0x20, 0x10].map twoPatched.objects).map (fun r => r.replacementFunctionAddress) =
        [0x03000000, 0x1000] := by
      decide +kernel
    have ht : ([0x20, 0x10].map twoPatched.objects).map (fun r => r.targetProcess) = [.upid 15, .gameAndMenu] := by
      decide +kernel
    refine ⟨?_, ?_, by decide +kernel, ?_, ?_⟩
    · intro r hmem
      have : r.replacementFunctionAddress ∈ [(0x03000000 : Word), 0x1000] := hr ▸ List.mem_map_of_mem hmem
      revert this
      generalize r.replacementFunctionAddress = a
      simp only [List.mem_cons, List.not_mem_nil, or_false]
      rintro (rfl | rfl) <;> rfl
    · intro r hmem t e
      have : r.targetProcess ∈ [FunctionPatcherTargetProcess.upid 15, .gameAndMenu] := ht ▸ List.mem_map_of_mem hmem
      rw [e] at this
      simp only [List.mem_cons, FunctionPatcherTargetProcess.upid.injEq, List.not_mem_nil, or_false, reduceCtorEq] at this
      rw [this]
      decide
    · rw [hbuffers]
      exact List.Pairwise.imp (fun h => blocksApart_of_indices h) (R := fun b c : Word × Nat =>
        ∀ i < b.2, ∀ j < c.2, b.1 + BitVec.ofNat 32 (4 * i) ≠ c.1 + BitVec.ofNat 32 (4 * j)) (by decide +kernel)
    · rw [hbuffers]
      show ∀ b ∈ _, ¬ inBlock b 0x02000400
      decide +kernel
  have horig : FallsThrough (fun _ m => { m with pc := m.pc + 4 }) 0x7c0802a6 0x02000400 := fun m => ⟨rfl, fun _ => rfl⟩
  have hpid : (machineAt 0x02000400 2).mem 0x10000d60 = 2 := rfl
  exact (dispatch hchain hsound rfl rfl (by decide) (by decide) upidState_code (by decide) (by decide) horig hpid).1 rfl

end FunctionPatcher
