import FunctionPatcher.ProcessFilter

/-!
# One record's buffers as code

Where control goes from the jump of one record, from its `jumpData` and from its
`jumpToOriginal`. The words that the generators make up themselves change r11,
the CTR and field 0 of the condition register only.
-/

namespace FunctionPatcher

open PowerPC (Machine decode exec At Aligned RunOf)

/-! ## What emitted words leave alone -/

structure Kept (m m' : Machine) : Prop where
  mem : m'.mem = m.mem
  lr : m'.lr = m.lr
  so : m'.so = m.so
  gpr : ∀ i, i ≠ 11 → m'.gpr i = m.gpr i
  cr : ∀ i : BitVec 5, i.extractLsb' 2 3 ≠ 0 → m'.cr i = m.cr i

theorem Kept.refl (m : Machine) : Kept m m := ⟨rfl, rfl, rfl, fun _ _ => rfl, fun _ _ => rfl⟩

theorem Kept.trans {m m₁ m₂ : Machine} (h₁ : Kept m m₁) (h₂ : Kept m₁ m₂) : Kept m m₂ :=
  ⟨h₂.mem.trans h₁.mem, h₂.lr.trans h₁.lr, h₂.so.trans h₁.so, fun i hi => (h₂.gpr i hi).trans (h₁.gpr i hi),
    fun i hi => (h₂.cr i hi).trans (h₁.cr i hi)⟩

theorem kept_r11 (m : Machine) (pc ctr v : Word) :
    Kept m { m with pc := pc, ctr := ctr, gpr := Function.update m.gpr 11 v } :=
  ⟨rfl, rfl, rfl, fun _ hi => Function.update_of_ne hi .., fun _ _ => rfl⟩

/-! ## Jumps -/

def jumpWords (t : Word) : List Word :=
  if !shortBranchPossible t then [lisR11 t, oriR11 t, mtctrR11, bctr] else [branchTo t]

theorem myfuncWords_eq (r : PatchedFunctionData) : myfuncWords r = jumpWords r.replacementFunctionAddress := rfl

theorem notMyProcessWords_eq (r : PatchedFunctionData) :
    notMyProcessWords r = r.replacedInstruction :: jumpWords (r.realEffectiveFunctionAddress + 4) := rfl

section
variable {sem : Word → Machine → Machine} {code : Word → Word} {K : Word → Prop} {m : Machine} {t : Word}

theorem exec_branchTo (ht : shortBranchPossible t = true) : exec sem (branchTo t) m = { m with pc := t } := by
  have ht : t &&& 0x01FFFFFC = t := by simpa [shortBranchPossible] using ht
  unfold PowerPC.exec
  rw [decode_branchTo]
  simp only [branchTarget_branchTo, ht]
  rfl

theorem run_branchTo (ht : shortBranchPossible t = true) (hc : code m.pc = branchTo t) (hk : K m.pc) :
    RunOf sem code K m { m with pc := t } := by
  apply RunOf.head hc hk
  rw [exec_branchTo ht]
  exact .refl

theorem run_setCtr (h : At code K m.pc [lisR11 t, oriR11 t, mtctrR11]) :
    RunOf sem code K m { m with pc := m.pc + 12, ctr := t, gpr := Function.update m.gpr 11 t } := by
  obtain ⟨h₀, k₀, h₁, k₁, h₂, k₂, _⟩ := h
  have e₀ : exec sem (lisR11 t) m =
      { m with pc := m.pc + 4, gpr := Function.update m.gpr 11 (t.extractLsb' 16 16 ++ 0#16) } := by
    simp [PowerPC.exec, decode_lisR11, Machine.base]
  have e₁ : exec sem (oriR11 t) { m with
        pc := m.pc + 4, gpr := Function.update m.gpr 11 (t.extractLsb' 16 16 ++ 0#16) } =
      { m with pc := m.pc + 4 + 4, gpr := Function.update m.gpr 11 t } := by
    simp [PowerPC.exec, decode_oriR11, PowerPC.append_or_setWidth]
  have e₂ : exec sem mtctrR11 { m with pc := m.pc + 4 + 4, gpr := Function.update m.gpr 11 t } =
      { m with pc := m.pc + 12, ctr := t, gpr := Function.update m.gpr 11 t } := by
    simp [PowerPC.exec, decode_mtctrR11, add_assoc]
  apply RunOf.head h₀ k₀
  rw [e₀]
  apply RunOf.head h₁ k₁
  rw [e₁]
  apply RunOf.head h₂ k₂
  rw [e₂]
  exact .refl

theorem exec_bctr : exec sem bctr m = { m with pc := m.ctr &&& 0xFFFFFFFC } := by
  simp [PowerPC.exec, decode_bctr]

theorem run_bctr_masked (hc : code m.pc = bctr) (hk : K m.pc) :
    RunOf sem code K m { m with pc := m.ctr &&& 0xFFFFFFFC } := by
  apply RunOf.head hc hk
  rw [exec_bctr]
  exact .refl

theorem run_bctr (ht : Aligned m.ctr) (hc : code m.pc = bctr) (hk : K m.pc) :
    RunOf sem code K m { m with pc := m.ctr } := by
  have h : RunOf sem code K m _ := run_bctr_masked hc hk
  rwa [ht.and_mask] at h

def jumped (t : Word) (m : Machine) : Machine :=
  if shortBranchPossible t then { m with pc := t }
  else { m with pc := t, ctr := t, gpr := Function.update m.gpr 11 t }

theorem jumped_kept (t : Word) (m : Machine) : Kept m (jumped t m) := by
  unfold jumped
  split
  · exact ⟨rfl, rfl, rfl, fun _ _ => rfl, fun _ _ => rfl⟩
  · exact kept_r11 m _ _ _

theorem jumped_pc (t : Word) (m : Machine) : (jumped t m).pc = t := by
  unfold jumped
  split <;> rfl

variable (sem) in
theorem run_jumpWords (ht : Aligned t) (h : At code K m.pc (jumpWords t)) : RunOf sem code K m (jumped t m) := by
  unfold jumpWords at h
  unfold jumped
  by_cases hs : shortBranchPossible t = true
  · rw [if_neg (by simp [hs])] at h
    rw [if_pos hs]
    exact run_branchTo hs h.1 h.2.1
  · rw [if_pos (by simp [hs])] at h
    rw [if_neg hs]
    obtain ⟨hctr, hb, kb, _⟩ := PowerPC.at_append.mp
      (show At code K m.pc ([lisR11 t, oriR11 t, mtctrR11] ++ [bctr]) from h)
    exact (run_setCtr hctr).trans (run_bctr ht hb kb)

/-! ## The process filter -/

theorem decode_beq {d : Word} (hd : d ∈ [(0x0C : Word), 0x14, 0x18, 0x20]) :
    decode (0x41820000 ||| d) = .bc 12 2 (d.extractLsb' 2 14) false false ∧
      ((d.extractLsb' 2 14) ++ 0#2).signExtend 32 = d := by
  simp only [List.mem_cons, List.not_mem_nil, or_false] at hd
  rcases hd with rfl | rfl | rfl | rfl <;> decide

variable (sem) in
theorem run_test {u d : Word} (ht : t < 0x8000) (hd : d ∈ [(0x0C : Word), 0x14, 0x18, 0x20]) (hu : m.gpr 11 = u)
    (h : At code K m.pc [0x2c0b0000 ||| t, 0x41820000 ||| d]) :
    ∃ m', RunOf sem code K m m' ∧ Kept m m' ∧ m'.gpr 11 = u ∧
      m'.pc = m.pc + 4 + if u = t then d else 4 := by
  obtain ⟨h₀, k₀, h₁, k₁, _⟩ := h
  obtain ⟨hdec, hdisp⟩ := decode_beq hd
  have hcmp : decode (0x2c0b0000 ||| t) = .cmpwi 0 11 (t.extractLsb' 0 16) := by
    have := decode_cmpwi t
    rwa [and_low_of_lt ht] at this
  refine ⟨_, .head h₀ k₀ (.head (w := 0x41820000 ||| d) ?_ ?_ .refl), ?_, ?_, ?_⟩
  all_goals simp only [PowerPC.exec, hcmp, hdec, hdisp, signExtend_low_of_lt ht, hu]
  · exact h₁
  · exact k₁
  · refine ⟨rfl, rfl, rfl, fun _ _ => rfl, ?_⟩
    intro i hi
    exact if_neg hi
  · by_cases he : u = t
    · simp [PowerPC.taken, PowerPC.compared, he]
    · simp [PowerPC.taken, PowerPC.compared, he]

variable (sem) in
theorem run_load {a U v w : Word} {ws : List Word} (hpc : m.pc = a) (hl : LoadsR11 code a U)
    (h : At code K a (v :: w :: ws)) :
    RunOf sem code K m { m with pc := a + 8, gpr := Function.update m.gpr 11 (m.mem U) } ∧ At code K (a + 8) ws := by
  obtain ⟨h₀, k₀, h₁, k₁, hws⟩ := h
  have e : a + 4 + 4 = a + 8 := by rw [add_assoc]; rfl
  rw [e] at hws
  refine ⟨?_, hws⟩
  have hrun : exec sem (code (a + 4)) (exec sem (code a) m) = _ := hl.exec hpc
  have hpc₁ : (exec sem (code a) m).pc = a + 4 := by
    obtain ⟨hi, lo, hd, _⟩ := hl
    simp only [PowerPC.exec, hd, hpc]
  rw [← hrun]
  subst hpc
  exact .head rfl k₀ (.head (by rw [hpc₁]) (hpc₁ ▸ k₁) .refl)

/-! ## The instruction a record keeps -/

/-- Where `jumpToOriginal` and `jumpData` hold the replaced instruction. -/
def toOriginalSlot (r : PatchedFunctionData) : Word :=
  r.jumpToOriginal + if shortBranchPossible (r.realEffectiveFunctionAddress + 4) then 0 else 12

def dataSlot (r : PatchedFunctionData) : Word :=
  r.jumpData + match r.targetProcess with
    | .all => 0
    | .gameAndMenu => 24
    | .upid _ => 16

/-- A machine after the words behind the slot of `jumpToOriginal`: a far jump uses the CTR as it
finds it. -/
def resumed (next : Word) (m : Machine) : Machine :=
  if shortBranchPossible next then { m with pc := next } else { m with pc := m.ctr &&& 0xFFFFFFFC }

theorem resumed_kept (next : Word) (m : Machine) : Kept m (resumed next m) := by
  unfold resumed
  split <;> exact ⟨rfl, rfl, rfl, fun _ _ => rfl, fun _ _ => rfl⟩

theorem resumed_pc {next : Word} (ha : Aligned next) {m : Machine} (h : shortBranchPossible next = false → m.ctr = next) :
    (resumed next m).pc = next := by
  unfold resumed
  by_cases hs : shortBranchPossible next = true
  · rw [if_pos hs]
  · rw [if_neg hs, h (by simpa using hs)]
    exact ha.and_mask

end

theorem inBlock_append {a x : Word} {k n : Nat} (h : inBlock (a + BitVec.ofNat 32 (4 * k), n) x) :
    inBlock (a, k + n) x := by
  obtain ⟨i, hi, e⟩ := h
  refine ⟨k + i, Nat.add_lt_add_left hi k, ?_⟩
  rw [e, Nat.mul_add, BitVec.ofNat_add, BitVec.add_assoc]

theorem ne_of_inBlock {a x : Word} {k : Nat} (hk : k ≤ 2 ^ 28) (h : inBlock (a, k) x) :
    x ≠ a + BitVec.ofNat 32 (4 * k) := by
  obtain ⟨i, hi, e⟩ := h
  have hi : i < k := hi
  intro e'
  have := add_left_cancel (e.symm.trans e')
  have := congrArg BitVec.toNat this
  simp only [BitVec.toNat_ofNat] at this
  omega

theorem at_split {code : Word → Word} {K : Word → Prop} {a w slot : Word} {pre post : List Word} {n : Nat}
    (h : At code (fun _ => True) a (pre ++ w :: post)) (hn : (pre ++ w :: post).length ≤ n) (hsmall : n < 2 ^ 28)
    (hslot : slot = a + BitVec.ofNat 32 (4 * pre.length)) (hK : ∀ x, inBlock (a, n) x → x ≠ slot → K x) :
    At code K a pre ∧ code slot = w ∧ At code K (slot + 4) post := by
  rw [PowerPC.at_append, ← hslot] at h
  obtain ⟨hpre, hw, _, hpost⟩ := h
  simp only [List.length_append, List.length_cons] at hn
  refine ⟨at_congr hpre ?_, hw, at_congr hpost ?_⟩
  · intro x hx
    refine ⟨rfl, hK x (inBlock_mono (by omega) hx) ?_⟩
    rw [hslot]
    exact ne_of_inBlock (by omega) hx
  · intro x hx
    refine ⟨rfl, hK x ?_ ?_⟩
    · have := inBlock_tail hx
      rw [hslot] at this
      exact inBlock_mono (by omega) (inBlock_append this)
    · intro e
      exact not_inBlock_tail (by omega) (e ▸ hx)

theorem toOriginalSlot_inBlock (r : PatchedFunctionData) : inBlock (r.jumpToOriginal, 5) (toOriginalSlot r) := by
  unfold toOriginalSlot
  split
  · exact ⟨0, by simp, rfl⟩
  · exact ⟨3, by simp, rfl⟩

theorem toOriginalSlot_add_inBlock (r : PatchedFunctionData) :
    inBlock (r.jumpToOriginal, 5) (toOriginalSlot r + 4) := by
  unfold toOriginalSlot
  split
  · exact ⟨1, by simp, by simp⟩
  · refine ⟨4, by simp, ?_⟩
    rw [add_assoc]
    rfl

theorem dataSlot_inBlock (r : PatchedFunctionData) : inBlock (r.jumpData, 15) (dataSlot r) := by
  unfold dataSlot
  cases r.targetProcess with
  | all => exact ⟨0, by simp, rfl⟩
  | gameAndMenu => exact ⟨6, by simp, rfl⟩
  | upid t => exact ⟨4, by simp, rfl⟩

/-- Whether a process is one that the record is for. -/
def accepts (menu game : Word) (targetProcess : FunctionPatcherTargetProcess) (u : Word) : Bool :=
  match targetProcess with
  | .all => true
  | .gameAndMenu => u = menu || u = game
  | .upid t => u = t

/-- `jumpData` holds what the generator wrote there, and of these words only the slot of the replaced
instruction may lie outside `K`. -/
structure DataPlaced (code : Word → Word) (K : Word → Prop) (menu game U : Word) (r : PatchedFunctionData) : Prop where
  next : Aligned (r.realEffectiveFunctionAddress + 4)
  processId : ∀ t, r.targetProcess = .upid t → t < 0x8000
  loads : r.targetProcess ≠ .all → LoadsR11 code r.jumpData U
  words : ∃ E s, E.fpTargetProcessWiiUMenu = menu ∧ E.fpTargetProcessGame = game ∧
    At code (fun _ => True) r.jumpData (jumpDataWords E s r) ∧
    ∀ x, inBlock (r.jumpData, (jumpDataWords E s r).length) x → (r.targetProcess ≠ .all → x ≠ dataSlot r) → K x

structure Placed (code : Word → Word) (K : Word → Prop) (menu game U : Word) (r : PatchedFunctionData) : Prop where
  replacement : Aligned r.replacementFunctionAddress
  next : Aligned (r.realEffectiveFunctionAddress + 4)
  jump : NeedsJumpData r → shortBranchPossible r.jumpData = true
  toOriginal : At code (fun _ => True) r.jumpToOriginal (jumpToOriginalWords r)
  inToOriginal : ∀ x, inBlock (r.jumpToOriginal, 5) x → x ≠ toOriginalSlot r → K x
  data : NeedsJumpData r → DataPlaced code K menu game U r

section
variable {sem : Word → Machine → Machine} {code : Word → Word} {K : Word → Prop} {menu game U u : Word}
variable {r : PatchedFunctionData} {m : Machine}

variable (sem) in
theorem enter_toOriginal (hat : At code (fun _ => True) r.jumpToOriginal (jumpToOriginalWords r))
    (hin : ∀ x, inBlock (r.jumpToOriginal, (jumpToOriginalWords r).length) x → x ≠ toOriginalSlot r → K x)
    (hpc : m.pc = r.jumpToOriginal) :
    ∃ m', RunOf sem code K m m' ∧ Kept m m' ∧ m'.pc = toOriginalSlot r ∧
      code (toOriginalSlot r) = r.replacedInstruction ∧ m'.cr = m.cr ∧
      (m'.ctr = if shortBranchPossible (r.realEffectiveFunctionAddress + 4) then m.ctr
        else r.realEffectiveFunctionAddress + 4) := by
  unfold jumpToOriginalWords at hat hin
  unfold toOriginalSlot at hin ⊢
  by_cases hs : shortBranchPossible (r.realEffectiveFunctionAddress + 4) = true
  · simp only [hs, Bool.not_true, Bool.false_eq_true, if_false, if_true] at hat hin ⊢
    have hat : At code _ r.jumpToOriginal ([] ++ r.replacedInstruction :: [_]) := hat
    obtain ⟨_, hw, _⟩ := at_split hat (Nat.le_refl _) (by simp) (by simp) hin
    exact ⟨m, .refl, .refl m, by rw [hpc]; simp, hw, rfl, rfl⟩
  · have hs : shortBranchPossible (r.realEffectiveFunctionAddress + 4) = false := by simpa using hs
    simp only [hs, Bool.not_false, Bool.false_eq_true, if_false, if_true] at hat hin ⊢
    have hat : At code _ r.jumpToOriginal ([_, _, _] ++ r.replacedInstruction :: [_]) := hat
    obtain ⟨hfront, hw, _⟩ := at_split hat (Nat.le_refl _) (by simp) rfl hin
    exact ⟨_, run_setCtr (hpc ▸ hfront), kept_r11 m _ _ _, by rw [hpc], hw, rfl, rfl⟩

theorem toOriginal_behind (hat : At code (fun _ => True) r.jumpToOriginal (jumpToOriginalWords r)) :
    code (toOriginalSlot r + 4) =
      if shortBranchPossible (r.realEffectiveFunctionAddress + 4) then branchTo (r.realEffectiveFunctionAddress + 4)
      else bctr := by
  unfold jumpToOriginalWords at hat
  unfold toOriginalSlot
  by_cases hs : shortBranchPossible (r.realEffectiveFunctionAddress + 4) = true
  · simp only [hs, Bool.not_true, Bool.false_eq_true, if_false, if_true] at hat ⊢
    obtain ⟨_, _, hb, _⟩ := hat
    rw [← hb]
    simp
  · have hs : shortBranchPossible (r.realEffectiveFunctionAddress + 4) = false := by simpa using hs
    simp only [hs, Bool.not_false, Bool.false_eq_true, if_false, if_true] at hat ⊢
    obtain ⟨_, _, _, _, _, _, _, _, hb, _⟩ := hat
    rw [← hb]
    simp only [add_assoc]
    rfl

variable (sem) in
theorem run_resume (hat : At code (fun _ => True) r.jumpToOriginal (jumpToOriginalWords r))
    (hk : K (toOriginalSlot r + 4)) (hpc : m.pc = toOriginalSlot r + 4) :
    RunOf sem code K m (resumed (r.realEffectiveFunctionAddress + 4) m) := by
  have hb := toOriginal_behind hat
  rw [← hpc] at hb hk
  unfold resumed
  by_cases hs : shortBranchPossible (r.realEffectiveFunctionAddress + 4) = true
  · rw [if_pos hs] at hb ⊢
    exact run_branchTo hs hb hk
  · rw [if_neg hs] at hb ⊢
    exact run_bctr_masked hb hk

def myfuncLabel (r : PatchedFunctionData) : Word :=
  dataSlot r + 4 + BitVec.ofNat 32 (4 * (jumpWords (r.realEffectiveFunctionAddress + 4)).length)

theorem filter_displacement (r : PatchedFunctionData) :
    (r.jumpData + 20 + if shortBranchPossible (r.realEffectiveFunctionAddress + 4) then 0x0C else 0x18) =
      r.jumpData + 24 + 4 + BitVec.ofNat 32 (4 * (jumpWords (r.realEffectiveFunctionAddress + 4)).length) ∧
    (r.jumpData + 12 + if shortBranchPossible (r.realEffectiveFunctionAddress + 4) then 0x14 else 0x20) =
      r.jumpData + 24 + 4 + BitVec.ofNat 32 (4 * (jumpWords (r.realEffectiveFunctionAddress + 4)).length) ∧
    (r.jumpData + 12 + if shortBranchPossible (r.realEffectiveFunctionAddress + 4) then 0x0C else 0x18) =
      r.jumpData + 16 + 4 + BitVec.ofNat 32 (4 * (jumpWords (r.realEffectiveFunctionAddress + 4)).length) := by
  unfold jumpWords
  generalize r.realEffectiveFunctionAddress + 4 = next
  by_cases hs : shortBranchPossible next = true
  · simp [hs, add_assoc]
  · simp [hs, add_assoc]

variable (sem) in
theorem run_filter {E : Env} {s : State} (hall : r.targetProcess ≠ .all) (hmenu : menu < 0x8000) (hgame : game < 0x8000)
    (hid : ∀ t, r.targetProcess = .upid t → t < 0x8000) (hEm : E.fpTargetProcessWiiUMenu = menu)
    (hEg : E.fpTargetProcessGame = game) (hl : LoadsR11 code r.jumpData U)
    (hat : At code K r.jumpData (processFilterWords E s r)) (hpc : m.pc = r.jumpData) (hu : m.mem U = u) :
    ∃ m', RunOf sem code K m m' ∧ Kept m m' ∧
      m'.pc = if accepts menu game r.targetProcess u then myfuncLabel r else dataSlot r := by
  obtain ⟨hlast, hfirst, honly⟩ := filter_displacement r
  unfold processFilterWords at hat
  cases ht : r.targetProcess with
  | all => exact absurd ht hall
  | upid t =>
    simp only [ht, List.cons_append, List.nil_append] at hat
    obtain ⟨hload, hrest⟩ := run_load sem hpc hl hat
    let m₁ : Machine := { m with pc := r.jumpData + 8, gpr := Function.update m.gpr 11 (m.mem U) }
    obtain ⟨m₂, hrun, hkept, _, hpc₂⟩ := run_test sem (m := m₁) (u := u) (hid t ht) (by split <;> simp)
      (by simp [m₁, hu]) hrest
    refine ⟨m₂, hload.trans hrun, (kept_r11 m _ _ _).trans hkept, ?_⟩
    have e : m₁.pc + 4 = r.jumpData + 12 := by simp [m₁, add_assoc]
    rw [hpc₂, e]
    unfold myfuncLabel dataSlot
    simp only [ht, accepts, decide_eq_true_eq]
    split
    · exact honly
    · rw [add_assoc]
      rfl
  | gameAndMenu =>
    simp only [ht, List.cons_append, List.nil_append, hEm, hEg] at hat
    obtain ⟨hload, hrest⟩ := run_load sem hpc hl hat
    obtain ⟨htest₁, htest₂⟩ := PowerPC.at_append.mp (show At code K _ ([_, _] ++ [_, _]) from hrest)
    let m₁ : Machine := { m with pc := r.jumpData + 8, gpr := Function.update m.gpr 11 (m.mem U) }
    obtain ⟨m₂, hrun, hkept, hu₂, hpc₂⟩ := run_test sem (m := m₁) (u := u) hmenu (by split <;> simp)
      (by simp [m₁, hu]) htest₁
    have e : m₁.pc + 4 = r.jumpData + 12 := by simp [m₁, add_assoc]
    rw [e] at hpc₂
    unfold myfuncLabel dataSlot
    simp only [ht, accepts, Bool.or_eq_true, decide_eq_true_eq]
    by_cases hm : u = menu
    · refine ⟨m₂, hload.trans hrun, (kept_r11 m _ _ _).trans hkept, ?_⟩
      have hor : u = menu ∨ u = game := .inl hm
      rw [hpc₂, if_pos hor, if_pos hm]
      exact hfirst
    · rw [if_neg hm] at hpc₂
      have e₂ : r.jumpData + 8 + BitVec.ofNat 32 (4 * 2) = m₂.pc := by
        rw [hpc₂, add_assoc, add_assoc]
        rfl
      obtain ⟨m₃, hrun₃, hkept₃, _, hpc₃⟩ := run_test sem (m := m₂) (u := u) hgame (by split <;> simp) hu₂
        (e₂ ▸ htest₂)
      refine ⟨m₃, (hload.trans hrun).trans hrun₃, ((kept_r11 m _ _ _).trans hkept).trans hkept₃, ?_⟩
      have e₃ : m₂.pc + 4 = r.jumpData + 20 := by
        rw [hpc₂, add_assoc, add_assoc]
        rfl
      rw [hpc₃, e₃]
      simp only [hm, false_or]
      split
      · exact hlast
      · rw [add_assoc]
        rfl

/-- How a record sorts a process: its replacement is reached, or the instruction it replaced
is, with a jump to `f + 4` behind it. -/
def Sorted (sem : Word → Machine → Machine) (code : Word → Word) (K : Word → Prop) (menu game u : Word)
    (r : PatchedFunctionData) (m' : Machine) : Prop :=
  if accepts menu game r.targetProcess u then m'.pc = r.replacementFunctionAddress
  else r.targetProcess ≠ .all ∧ m'.pc = dataSlot r ∧ code (dataSlot r) = r.replacedInstruction ∧
    ∀ m₁, m₁.pc = dataSlot r + 4 → RunOf sem code K m₁ (jumped (r.realEffectiveFunctionAddress + 4) m₁)

theorem dataSlot_eq {E : Env} {s : State} (hall : r.targetProcess ≠ .all) :
    dataSlot r = r.jumpData + BitVec.ofNat 32 (4 * (processFilterWords E s r).length) := by
  unfold dataSlot processFilterWords
  cases ht : r.targetProcess with
  | all => exact absurd ht hall
  | gameAndMenu => rfl
  | upid t => rfl

variable (sem) in
theorem DataPlaced.enter_filter (h : DataPlaced code K menu game U r) (hmenu : menu < 0x8000) (hgame : game < 0x8000)
    (hall : r.targetProcess ≠ .all) (hpc : m.pc = r.jumpData) (hu : m.mem U = u) :
    (∃ m', RunOf sem code K m m' ∧ Kept m m' ∧
      m'.pc = if accepts menu game r.targetProcess u then myfuncLabel r else dataSlot r) ∧
    code (dataSlot r) = r.replacedInstruction ∧
    At code K (dataSlot r + 4) (jumpWords (r.realEffectiveFunctionAddress + 4)) ∧
    At code K (myfuncLabel r) (jumpWords r.replacementFunctionAddress) := by
  obtain ⟨E, s, hEm, hEg, hat, hin⟩ := h.words
  have hlen := jumpDataWords_length E s r
  unfold jumpDataWords at hat hlen hin
  rw [if_pos hall, notMyProcessWords_eq, myfuncWords_eq, List.append_assoc, List.cons_append] at hat hlen hin
  have hin := fun x hx hne => hin x hx fun _ => hne
  obtain ⟨hfilter, hslot, hback⟩ := at_split hat (Nat.le_refl _) (by omega) (dataSlot_eq hall) hin
  obtain ⟨hnext, hmy⟩ := PowerPC.at_append.mp hback
  exact ⟨run_filter sem hall hmenu hgame h.processId hEm hEg (h.loads hall) hfilter hpc hu, hslot, hnext, hmy⟩

variable (sem) in
theorem DataPlaced.enter_data (h : DataPlaced code K menu game U r) (hmenu : menu < 0x8000) (hgame : game < 0x8000)
    (hreplacement : Aligned r.replacementFunctionAddress) (hpc : m.pc = r.jumpData) (hu : m.mem U = u) :
    ∃ m', RunOf sem code K m m' ∧ Kept m m' ∧ Sorted sem code K menu game u r m' := by
  unfold Sorted
  by_cases hall : r.targetProcess = .all
  · -- the buffer is the jump alone
    obtain ⟨E, s, _, _, hat, hin⟩ := h.words
    unfold jumpDataWords at hat hin
    rw [myfuncWords_eq, if_neg (not_not.mpr hall), List.nil_append] at hat hin
    have hK : At code K r.jumpData (jumpWords r.replacementFunctionAddress) := by
      apply at_congr hat
      intro x hx
      exact ⟨rfl, hin x hx (absurd hall)⟩
    refine ⟨_, run_jumpWords sem hreplacement (hpc ▸ hK), jumped_kept _ m, ?_⟩
    rw [hall]
    exact jumped_pc _ m
  · obtain ⟨⟨m₁, hrun, hkept, hpc₁⟩, hslot, hnext, hmy⟩ := h.enter_filter sem hmenu hgame hall hpc hu
    by_cases hacc : accepts menu game r.targetProcess u = true
    · rw [if_pos hacc] at hpc₁
      refine ⟨_, hrun.trans (run_jumpWords sem hreplacement (hpc₁ ▸ hmy)), hkept.trans (jumped_kept _ m₁), ?_⟩
      rw [if_pos hacc]
      exact jumped_pc _ m₁
    · rw [if_neg hacc] at hpc₁
      refine ⟨m₁, hrun, hkept, ?_⟩
      rw [if_neg hacc]
      refine ⟨hall, hpc₁, hslot, ?_⟩
      intro m₂ h₂
      exact run_jumpWords sem h.next (h₂ ▸ hnext)

variable (sem) in
theorem Placed.run_jump (h : Placed code K menu game U r) (hmenu : menu < 0x8000) (hgame : game < 0x8000)
    (hc : code m.pc = jumpInstruction r) (hk : K m.pc) (hu : m.mem U = u) :
    ∃ m', RunOf sem code K m m' ∧ Kept m m' ∧ Sorted sem code K menu game u r m' := by
  unfold jumpInstruction at hc
  by_cases hn : NeedsJumpData r
  · have hn' : 0x01FFFFFC < r.replacementFunctionAddress ∨ r.targetProcess ≠ .all := hn
    rw [if_pos hn'] at hc
    let m₀ : Machine := { m with pc := r.jumpData }
    have hpc : m₀.pc = r.jumpData := rfl
    have hu₀ : m₀.mem U = u := hu
    obtain ⟨m', hrun, hkept, hs⟩ := (h.data hn).enter_data sem hmenu hgame h.replacement hpc hu₀
    refine ⟨m', (run_branchTo (h.jump hn) hc hk).trans hrun, ⟨hkept.mem, hkept.lr, hkept.so, hkept.gpr, hkept.cr⟩, hs⟩
  · have hn : ¬ (0x01FFFFFC < r.replacementFunctionAddress ∨ r.targetProcess ≠ .all) := hn
    rw [if_neg hn] at hc
    obtain ⟨hnear, hall⟩ := not_or.mp hn
    have hshort := shortBranchPossible_of_le h.replacement hnear
    refine ⟨_, run_branchTo hshort hc hk, ⟨rfl, rfl, rfl, fun _ _ => rfl, fun _ _ => rfl⟩, ?_⟩
    unfold Sorted
    rw [not_not.mp hall]
    rfl

end

end FunctionPatcher
