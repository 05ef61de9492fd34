import FunctionPatcher.PatcherSpec
import FunctionPatcher.PowerPC

/-!
# The emitted words as instructions

What each word of the two generators decodes to, where the words are stored, and
how much room they take.
-/

namespace FunctionPatcher

open PowerPC (Instruction Machine decode exec At Aligned)

/-! ## Decoding -/

theorem and_low_half (x : BitVec 16) : x &&& 65535#16 = x := BitVec.and_allOnes

theorem extract_shifted (a : Word) : (a >>> 16).extractLsb' 0 16 = a.extractLsb' 16 16 := by
  apply BitVec.eq_of_getLsbD_eq
  intro i hi
  simp

theorem decode_lis (x : Word) : decode (0x3d600000 ||| (x &&& 0x0000FFFF)) = .addis 11 0 (x.extractLsb' 0 16) := by
  simp [decode, PowerPC.opcode, PowerPC.fieldT, PowerPC.fieldA, PowerPC.fieldD, BitVec.extractLsb'_or,
    BitVec.extractLsb'_and, and_low_half]

theorem decode_lwz (x : Word) : decode (0x816b0000 ||| (x &&& 0x0000FFFF)) = .lwz 11 11 (x.extractLsb' 0 16) := by
  simp [decode, PowerPC.opcode, PowerPC.fieldT, PowerPC.fieldA, PowerPC.fieldD, BitVec.extractLsb'_or,
    BitVec.extractLsb'_and, and_low_half]

theorem decode_lisR11 (a : Word) : decode (lisR11 a) = .addis 11 0 (a.extractLsb' 16 16) := by
  unfold lisR11
  rw [decode_lis, extract_shifted]

theorem decode_oriR11 (a : Word) : decode (oriR11 a) = .ori 11 11 (a.extractLsb' 0 16) := by
  simp [oriR11, decode, PowerPC.opcode, PowerPC.fieldT, PowerPC.fieldA, PowerPC.fieldD, BitVec.extractLsb'_or,
    BitVec.extractLsb'_and, and_low_half]

theorem decode_mtctrR11 : decode mtctrR11 = .mtctr 11 := by decide

theorem decode_bctr : decode bctr = .bcctr 20 0 false := by decide

theorem decode_branchTo (a : Word) : decode (branchTo a) = .b (a.extractLsb' 2 24 &&& 0x7FFFFF) true false := by
  simp [branchTo, decode, PowerPC.opcode, BitVec.extractLsb'_or, BitVec.extractLsb'_and]

theorem decode_cmpwi (t : Word) : decode (0x2c0b0000 ||| (t &&& 0x0000FFFF)) = .cmpwi 0 11 (t.extractLsb' 0 16) := by
  simp [decode, PowerPC.opcode, PowerPC.fieldA, PowerPC.fieldD, BitVec.extractLsb'_or,
    BitVec.extractLsb'_and, and_low_half]

theorem branchTarget_branchTo (pc a : Word) :
    PowerPC.branchTarget pc (a.extractLsb' 2 24 &&& 0x7FFFFF) true = a &&& 0x01FFFFFC := by
  have hmsb : ((a.extractLsb' 2 24 &&& 0x7FFFFF) ++ 0#2).msb = false := by
    have : (0x7FFFFF : BitVec 24).msb = false := by decide
    rw [BitVec.msb_append, if_neg (by decide), BitVec.msb_and, this, Bool.and_false]
  have hmask : ∀ i < 32, (0x01FFFFFC : Word).getLsbD i = (decide (2 ≤ i) && (0x7FFFFF : BitVec 24).getLsbD (i - 2)) := by
    decide
  unfold PowerPC.branchTarget
  rw [if_pos rfl, zero_add, BitVec.signExtend_eq_setWidth_of_msb_false hmsb]
  apply BitVec.eq_of_getLsbD_eq
  intro i hi
  rw [BitVec.getLsbD_and, hmask i hi]
  simp only [BitVec.getLsbD_setWidth, BitVec.getLsbD_append, BitVec.getLsbD_and, BitVec.getLsbD_extractLsb']
  by_cases h : i < 2
  · have : ¬ 2 ≤ i := by omega
    simp [h, this]
  · have h' : 2 ≤ i := by omega
    have e : 2 + (i - 2) = i := by omega
    simp only [h, h', e, hi, if_false, decide_true, Bool.true_and]
    by_cases hb : i - 2 < 24
    · simp [hb]
    · have : (0x7FFFFF#24).getLsbD (i - 2) = false := BitVec.getLsbD_of_ge _ _ (by omega)
      simp [this]

theorem and_low_of_lt {t : Word} (h : t < 0x8000) : t &&& 0x0000FFFF = t := by
  apply BitVec.eq_of_toNat_eq
  rw [BitVec.toNat_and]
  have : (0x0000FFFF : Word).toNat = 2 ^ 16 - 1 := by decide
  rw [this, Nat.and_two_pow_sub_one_eq_mod]
  have : t.toNat < 0x8000 := h
  omega

theorem signExtend_low_of_lt {t : Word} (h : t < 0x8000) : (t.extractLsb' 0 16).signExtend 32 = t := by
  have hlt : t.toNat < 0x8000 := h
  have hmsb : (t.extractLsb' 0 16).msb = false := by
    rw [BitVec.msb_eq_false_iff_two_mul_lt]
    simp
    omega
  rw [BitVec.signExtend_eq_setWidth_of_msb_false hmsb]
  apply BitVec.eq_of_toNat_eq
  simp
  omega

theorem shortBranchPossible_of_le {a : Word} (ha : Aligned a) (h : ¬ 0x01FFFFFC < a) :
    shortBranchPossible a = true := by
  have hlow : a &&& 0x01FFFFFF = a := by
    apply BitVec.eq_of_toNat_eq
    rw [BitVec.toNat_and]
    have : (0x01FFFFFF : Word).toNat = 2 ^ 25 - 1 := by decide
    rw [this, Nat.and_two_pow_sub_one_eq_mod]
    have : ¬ 0x01FFFFFC < a.toNat := h
    have := (PowerPC.aligned_iff a).mp ha
    omega
  have e : (0x01FFFFFC : Word) = 0xFFFFFFFC &&& 0x01FFFFFF := by decide
  unfold shortBranchPossible
  rw [decide_eq_true_eq, e, ← BitVec.and_assoc, ha.and_mask, hlow]

/-! ## Storing -/

def inBlock (b : Word × Nat) (x : Word) : Prop := ∃ i < b.2, x = b.1 + BitVec.ofNat 32 (4 * i)

theorem inBlock_head (a : Word) (n : Nat) : inBlock (a, n + 1) a := ⟨0, Nat.succ_pos n, by simp⟩

theorem inBlock_tail {a x : Word} {n : Nat} (h : inBlock (a + 4, n) x) : inBlock (a, n + 1) x := by
  obtain ⟨i, hi, e⟩ := h
  refine ⟨i + 1, Nat.succ_lt_succ hi, ?_⟩
  rw [e, Nat.mul_add, BitVec.ofNat_add]
  simp only [BitVec.add_assoc]
  exact congrArg _ (BitVec.add_comm _ _)

theorem inBlock_mono {a x : Word} {n m : Nat} (h : n ≤ m) (hx : inBlock (a, n) x) : inBlock (a, m) x := by
  obtain ⟨i, hi, e⟩ := hx
  exact ⟨i, Nat.lt_of_lt_of_le hi h, e⟩

theorem not_inBlock_tail {a : Word} {n : Nat} (hn : n < 2 ^ 28) : ¬ inBlock (a + 4, n) a := by
  intro ⟨i, hi, e⟩
  have := congrArg BitVec.toNat e
  simp only [BitVec.toNat_add, BitVec.toNat_ofNat] at this
  have ha := a.isLt
  simp only [show (4 : Word).toNat = 4 from rfl] at this
  omega

theorem storeWords_of_not_inBlock {x : Word} {ws : List Word} {f : Word → Word} {a : Word}
    (h : ¬ inBlock (a, ws.length) x) : storeWords f a ws x = f x := by
  induction ws generalizing f a with
  | nil => rfl
  | cons w ws ih =>
    have hx : x ≠ a := by
      intro e
      exact h (e ▸ inBlock_head a ws.length)
    rw [storeWords, ih fun h' => h (inBlock_tail h'), Function.update_of_ne hx]

theorem at_storeWords {ws : List Word} {f : Word → Word} {a : Word} (hlen : ws.length ≤ 2 ^ 28) :
    At (storeWords f a ws) (fun _ => True) a ws := by
  induction ws generalizing f a with
  | nil => exact trivial
  | cons w ws ih =>
    simp only [List.length_cons] at hlen
    refine ⟨?_, trivial, ih (by omega)⟩
    rw [storeWords, storeWords_of_not_inBlock (not_inBlock_tail (by omega)), Function.update_self]

theorem at_congr {code code' : Word → Word} {K K' : Word → Prop} {ws : List Word} {a : Word} (h : At code K a ws)
    (hx : ∀ x, inBlock (a, ws.length) x → code' x = code x ∧ K' x) : At code' K' a ws := by
  induction ws generalizing a with
  | nil => exact trivial
  | cons w ws ih =>
    obtain ⟨hw, _, h⟩ := h
    obtain ⟨hc, hk⟩ := hx a (inBlock_head a ws.length)
    exact ⟨hc.trans hw, hk, ih h fun x hx' => hx x (inBlock_tail hx')⟩

/-! ## Sizes -/

theorem jumpToOriginalWords_length (r : PatchedFunctionData) : (jumpToOriginalWords r).length ≤ 5 := by
  unfold jumpToOriginalWords
  simp only
  split <;> simp

theorem processFilterWords_length (E : Env) (s : State) (r : PatchedFunctionData) :
    (processFilterWords E s r).length ≤ 6 := by
  unfold processFilterWords
  simp only
  split <;> simp

theorem notMyProcessWords_length (r : PatchedFunctionData) : (notMyProcessWords r).length ≤ 5 := by
  unfold notMyProcessWords
  simp only
  split <;> simp

theorem myfuncWords_length (r : PatchedFunctionData) : (myfuncWords r).length ≤ 4 := by
  unfold myfuncWords
  split <;> simp

theorem jumpDataWords_length (E : Env) (s : State) (r : PatchedFunctionData) : (jumpDataWords E s r).length ≤ 15 := by
  have h₁ := processFilterWords_length E s r
  have h₂ := notMyProcessWords_length r
  have h₃ := myfuncWords_length r
  unfold jumpDataWords
  split
  · simp only [List.length_append]
    omega
  · simp only [List.length_append, List.length_nil]
    omega

theorem generatedWords_of_not_inBlock {E : Env} {s : State} {r : PatchedFunctionData} {x : Word}
    (hjo : ¬ inBlock (r.jumpToOriginal, 5) x) (hjd : r.jumpData ≠ 0 → ¬ inBlock (r.jumpData, 15) x)
    (h0 : (0x01FFFFFC < r.replacementFunctionAddress ∨ r.targetProcess ≠ .all) → r.jumpData ≠ 0) :
    generatedWords E s r x = s.jumpHeap.words x := by
  have h₁ : storeWords s.jumpHeap.words r.jumpToOriginal (jumpToOriginalWords r) x = s.jumpHeap.words x := by
    apply storeWords_of_not_inBlock
    intro h
    exact hjo (inBlock_mono (jumpToOriginalWords_length r) h)
  unfold generatedWords
  split
  · rename_i hn
    rw [storeWords_of_not_inBlock, h₁]
    intro h
    exact hjd (h0 hn) (inBlock_mono (jumpDataWords_length E s r) h)
  · exact h₁

end FunctionPatcher
