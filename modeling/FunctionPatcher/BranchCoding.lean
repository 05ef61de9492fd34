import FunctionPatcher.Emitted

/-!
# Branches as the resolver reads and the generators write them

`followBranch` masks the fields out of the word and extends the sign by hand.
It agrees with the decoder of the instruction set, and what the generators
emit is no branch it follows.
-/

namespace FunctionPatcher

open PowerPC (Instruction Machine decode exec)

/-! ## Fields -/

theorem decode_eq_b_iff {w : Word} {li : BitVec 24} {aa lk : Bool} : decode w = .b li aa lk ↔
    PowerPC.opcode w = 18 ∧ w.extractLsb' 2 24 = li ∧ w.getLsbD 1 = aa ∧ w.getLsbD 0 = lk := by
  unfold PowerPC.decode
  by_cases h : PowerPC.opcode w = 18
  · simp [h]
  · simp only [h, if_false, false_and, iff_false]
    split_ifs <;> intro e <;> cases e

theorem isRelative_iff (w : Word) : w &&& 0xFC000003 = 0x48000000 ↔
    PowerPC.opcode w = 18 ∧ w.getLsbD 1 = false ∧ w.getLsbD 0 = false := by
  have hmask : ∀ i < 32, (0xFC000003 : Word).getLsbD i = (decide (26 ≤ i) || decide (i < 2)) := by decide
  have hword : ∀ i < 32, (0x48000000 : Word).getLsbD i = (decide (26 ≤ i) && (18 : BitVec 6).getLsbD (i - 26)) := by
    decide
  constructor
  · intro h
    have hbit : ∀ i < 32, (w.getLsbD i && (0xFC000003 : Word).getLsbD i) = (0x48000000 : Word).getLsbD i := by
      intro i _
      rw [← BitVec.getLsbD_and, h]
    refine ⟨?_, by simpa using hbit 1 (by omega), by simpa using hbit 0 (by omega)⟩
    apply BitVec.eq_of_getLsbD_eq
    intro i hi
    have hb := hbit (26 + i) (by omega)
    rw [hmask _ (by omega), hword _ (by omega)] at hb
    simpa [PowerPC.opcode, hi] using hb
  · rintro ⟨hop, h1, h0⟩
    apply BitVec.eq_of_getLsbD_eq
    intro i hi
    rw [BitVec.getLsbD_and, hmask i hi, hword i hi]
    by_cases hhigh : 26 ≤ i
    · have hb : (PowerPC.opcode w).getLsbD (i - 26) = (18 : BitVec 6).getLsbD (i - 26) := by rw [hop]
      have e : 26 + (i - 26) = i := by omega
      have hlt : i - 26 < 6 := by omega
      simpa [PowerPC.opcode, e, hlt, hhigh] using hb
    · by_cases hlow : i < 2
      · have : i = 0 ∨ i = 1 := by omega
        rcases this with rfl | rfl
        · rw [h0]
          rfl
        · rw [h1]
          rfl
      · simp [hhigh, hlow]

theorem isNegative_iff (w : Word) : w &&& 0x02000000 = 0x02000000 ↔ w.getLsbD 25 = true := by
  have hmask : ∀ i < 32, (0x02000000 : Word).getLsbD i = decide (i = 25) := by decide
  constructor
  · intro h
    have : (w &&& 0x02000000).getLsbD 25 = (0x02000000 : Word).getLsbD 25 := by rw [h]
    simpa using this
  · intro h
    apply BitVec.eq_of_getLsbD_eq
    intro i hi
    rw [BitVec.getLsbD_and, hmask i hi]
    by_cases e : i = 25
    · simp [e, h]
    · simp [e]

theorem signExtend_displacement (w : Word) : (w.extractLsb' 2 24 ++ 0#2).signExtend 32 =
    if w &&& 0x02000000 = 0x02000000 then 0xFE000000 + (w &&& 0x01FFFFFC) else w &&& 0x01FFFFFC := by
  have hlow : ∀ i < 32, (0x01FFFFFC : Word).getLsbD i = (decide (2 ≤ i) && decide (i < 25)) := by decide
  have hhigh : ∀ i < 32, (0xFE000000 : Word).getLsbD i = decide (25 ≤ i) := by decide
  have hbit : ∀ i < 32, ((w.extractLsb' 2 24 ++ 0#2).signExtend 32).getLsbD i =
      if i < 2 then false else if i < 25 then w.getLsbD i else w.getLsbD 25 := by
    intro i hi
    rw [BitVec.getLsbD_signExtend, BitVec.msb_eq_getLsbD_last]
    simp only [hi, decide_true, Bool.true_and, BitVec.getLsbD_append, BitVec.getLsbD_extractLsb']
    by_cases h2 : i < 2
    · simp [h2, show i < 26 by omega]
    · by_cases h25 : i < 25
      · simp [h2, h25, show i < 26 by omega, show i - 2 < 24 by omega, show 2 + (i - 2) = i by omega]
      · by_cases e : i = 25
        · simp [e]
        · simp [h2, h25, show ¬ i < 26 by omega]
  by_cases hs : w &&& 0x02000000 = 0x02000000
  · have hdisjoint : (0xFE000000 : Word) &&& (w &&& 0x01FFFFFC) = 0 := by
      have : (0xFE000000 : Word) &&& 0x01FFFFFC = 0 := by decide
      rw [BitVec.and_comm w, ← BitVec.and_assoc, this]
      exact BitVec.zero_and
    rw [if_pos hs, BitVec.add_eq_or_of_and_eq_zero _ _ hdisjoint]
    rw [isNegative_iff] at hs
    apply BitVec.eq_of_getLsbD_eq
    intro i hi
    rw [hbit i hi, BitVec.getLsbD_or, BitVec.getLsbD_and, hlow i hi, hhigh i hi, hs]
    by_cases h2 : i < 2
    · simp [h2, show ¬ 25 ≤ i by omega, show ¬ 2 ≤ i by omega]
    · by_cases h25 : i < 25
      · simp [h2, h25, show ¬ 25 ≤ i by omega, show 2 ≤ i by omega]
      · simp [h2, h25, show 25 ≤ i by omega]
  · rw [if_neg hs]
    rw [isNegative_iff, Bool.not_eq_true] at hs
    apply BitVec.eq_of_getLsbD_eq
    intro i hi
    rw [hbit i hi, BitVec.getLsbD_and, hlow i hi, hs]
    by_cases h2 : i < 2
    · simp [h2, show ¬ 2 ≤ i by omega]
    · by_cases h25 : i < 25
      · simp [h2, h25, show 2 ≤ i by omega]
      · simp [h2, h25]

/-! ## The resolver -/

/-- The address `OSDynLoad_FindExport` stores, where the library has a handle and the export exists. -/
def exportAddress (E : Env) (P : FunctionAddressProvider) (library : FunctionReplacementLibraryType)
    (functionName : String) : Option Word :=
  match (rplHandleOf E P library).1 with
  | none => none
  | some rplHandle =>
    if E.osDynLoadFindExport rplHandle functionName = 0 then none
    else some (E.osDynLoadFindExport rplHandle functionName)

theorem exportAddress_some {E : Env} {P : FunctionAddressProvider} {library : FunctionReplacementLibraryType}
    {functionName : String} {a : Word} (h : exportAddress E P library functionName = some a) :
    ∃ rplHandle, E.osDynLoadFindExport rplHandle functionName = a ∧ a ≠ 0 := by
  unfold exportAddress at h
  split at h
  · cases h
  · rename_i rplHandle _
    split at h
    · cases h
    · rename_i h0
      cases h
      exact ⟨rplHandle, rfl, h0⟩

theorem getEffectiveAddressOfFunction_address (E : Env) (s : State) (library : FunctionReplacementLibraryType)
    (functionName : String) : (getEffectiveAddressOfFunction E s library functionName).1 =
      ((exportAddress E s.gFunctionAddressProvider library functionName).map
        fun a => followBranch a (load E s a)).getD 0 := by
  unfold getEffectiveAddressOfFunction exportAddress
  cases rplHandleOf E s.gFunctionAddressProvider library with
  | mk o P =>
    cases o with
    | none => rfl
    | some rplHandle =>
      simp only
      split <;> rfl

theorem followBranch_of_relative {a w : Word} {li : BitVec 24} (h : decode w = .b li false false) :
    followBranch a w = a + (li ++ 0#2).signExtend 32 := by
  obtain ⟨hop, rfl, h1, h0⟩ := decode_eq_b_iff.mp h
  unfold followBranch
  rw [if_pos ((isRelative_iff w).mpr ⟨hop, h1, h0⟩), signExtend_displacement]
  exact (apply_ite (a + ·) _ _ _).symm

theorem followBranch_of_not_relative {a w : Word} (h : ∀ li, decode w ≠ .b li false false) :
    followBranch a w = a := by
  unfold followBranch
  rw [if_neg]
  intro hw
  obtain ⟨hop, h1, h0⟩ := (isRelative_iff w).mp hw
  exact h _ (decode_eq_b_iff.mpr ⟨hop, rfl, h1, h0⟩)

theorem followBranch_branchTo (a x : Word) : followBranch a (branchTo x) = a := by
  apply followBranch_of_not_relative
  intro li h
  rw [decode_branchTo] at h
  cases h

/-- **Branch coding.** The resolver's adjustment is the branch's destination for every word that
is a `b` with `AA = 0` and `LK = 0`, and nothing for every other. The words of the generators are
branches to an absolute address, to the one asked for as far as the field holds it. -/
theorem branch_coding (E : Env) (s : State) (library : FunctionReplacementLibraryType) (functionName : String)
    (sem : Word → Machine → Machine) (m : Machine) (a w x : Word) :
    (getEffectiveAddressOfFunction E s library functionName).1 =
      ((exportAddress E s.gFunctionAddressProvider library functionName).map
        fun a => followBranch a (load E s a)).getD 0 ∧
    followBranch a w =
      (match decode w with
        | .b _ false false => (exec sem w { m with pc := a }).pc
        | _ => a) ∧
    (∀ li, PowerPC.branchTarget a li false = BitVec.ofInt 32 (a.toNat + (li ++ 0#2).toInt)) ∧
    (∃ li, decode (branchTo x) = .b li true false) ∧
    ((exec sem (branchTo x) { m with pc := a }).pc = x ↔ x &&& 0x01FFFFFC = x) ∧
    followBranch a (branchTo x) = a := by
  refine ⟨getEffectiveAddressOfFunction_address E s library functionName, ?_, ?_, ⟨_, decode_branchTo x⟩, ?_,
    followBranch_branchTo a x⟩
  · split
    · rename_i li h
      rw [followBranch_of_relative h]
      unfold PowerPC.exec
      rw [h]
      rfl
    · rename_i h
      exact followBranch_of_not_relative h
  · intro li
    unfold PowerPC.branchTarget
    rw [if_neg Bool.false_ne_true, BitVec.signExtend, BitVec.ofInt_add, BitVec.ofInt_natCast, BitVec.ofNat_toNat,
      BitVec.setWidth_eq]
  · unfold PowerPC.exec
    rw [decode_branchTo]
    show PowerPC.branchTarget _ _ true = x ↔ _
    rw [branchTarget_branchTo]

end FunctionPatcher
