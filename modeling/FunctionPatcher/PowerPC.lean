import Mathlib.Data.BitVec
import Mathlib.Logic.Function.Basic
import Mathlib.Logic.Relation

/-!
# A fragment of the 32-bit PowerPC

Decoding and execution of the instructions a trampoline is made of, and runs
that execute only words of a given kind. What any other word does is the
parameter `sem`.
-/

namespace PowerPC

abbrev Word := BitVec 32

/-! ## Instructions -/

inductive Instruction where
  | addis (rt ra : BitVec 5) (si : BitVec 16)
  | ori (ra rs : BitVec 5) (ui : BitVec 16)
  | lwz (rt ra : BitVec 5) (d : BitVec 16)
  | cmpwi (bf : BitVec 3) (ra : BitVec 5) (si : BitVec 16)
  | b (li : BitVec 24) (aa lk : Bool)
  | bc (bo bi : BitVec 5) (bd : BitVec 14) (aa lk : Bool)
  | mtctr (rs : BitVec 5)
  | bcctr (bo bi : BitVec 5) (lk : Bool)
  | other (w : Word)
  deriving DecidableEq

open Instruction

def opcode (w : Word) : BitVec 6 := w.extractLsb' 26 6

/-- The fields of an instruction by their bits from the right: `D` is the operand of the D forms,
`XO` the extended opcode with the bits behind it. -/
def fieldT (w : Word) : BitVec 5 := w.extractLsb' 21 5
def fieldA (w : Word) : BitVec 5 := w.extractLsb' 16 5
def fieldD (w : Word) : BitVec 16 := w.extractLsb' 0 16

def decode (w : Word) : Instruction :=
  if opcode w = 15 then addis (fieldT w) (fieldA w) (fieldD w)
  else if opcode w = 24 then ori (fieldA w) (fieldT w) (fieldD w)
  else if opcode w = 32 then lwz (fieldT w) (fieldA w) (fieldD w)
  else if opcode w = 11 ∧ w.extractLsb' 21 2 = 0 then cmpwi (w.extractLsb' 23 3) (fieldA w) (fieldD w)
  else if opcode w = 18 then b (w.extractLsb' 2 24) (w.getLsbD 1) (w.getLsbD 0)
  else if opcode w = 16 then bc (fieldT w) (fieldA w) (w.extractLsb' 2 14) (w.getLsbD 1) (w.getLsbD 0)
  -- SPR 9 is the CTR
  else if opcode w = 31 ∧ w.extractLsb' 0 21 = 0x903a6 then mtctr (fieldT w)
  else if opcode w = 19 ∧ w.extractLsb' 1 15 = 528 then bcctr (fieldT w) (fieldA w) (w.getLsbD 0)
  else other w

/-! ## Machines -/

structure Machine where
  pc : Word
  gpr : BitVec 5 → Word
  ctr : Word
  lr : Word
  /-- The condition register, bit 0 first. -/
  cr : BitVec 5 → Bool
  so : Bool
  /-- The word a load from an address reads. -/
  mem : Word → Word

/-- The base of an address, where register 0 stands for 0. -/
def Machine.base (m : Machine) (ra : BitVec 5) : Word := if ra = 0 then 0 else m.gpr ra

def compared (x y : Word) (so : Bool) (bit : BitVec 2) : Bool :=
  if bit = 0 then x.slt y else if bit = 1 then y.slt x else if bit = 2 then x = y else so

def taken (bo : BitVec 5) (ctr : Word) (bit : Bool) : Bool :=
  (bo.getLsbD 2 || (decide (ctr ≠ 0) ^^ bo.getLsbD 1)) && (bo.getLsbD 4 || bit == bo.getLsbD 3)

def branchTarget (pc : Word) (li : BitVec 24) (aa : Bool) : Word :=
  (if aa then 0 else pc) + (li ++ 0#2).signExtend 32

def exec (sem : Word → Machine → Machine) (w : Word) (m : Machine) : Machine :=
  match decode w with
  | addis rt ra si =>
    { m with pc := m.pc + 4, gpr := Function.update m.gpr rt (m.base ra + (si ++ 0#16)) }
  | ori ra rs ui => { m with pc := m.pc + 4, gpr := Function.update m.gpr ra (m.gpr rs ||| ui.setWidth 32) }
  | lwz rt ra d => { m with pc := m.pc + 4, gpr := Function.update m.gpr rt (m.mem (m.base ra + d.signExtend 32)) }
  | cmpwi bf ra si =>
    { m with
      pc := m.pc + 4
      cr := fun i => if i.extractLsb' 2 3 = bf then compared (m.gpr ra) (si.signExtend 32) m.so (i.extractLsb' 0 2)
        else m.cr i }
  | b li aa lk =>
    { m with pc := branchTarget m.pc li aa, lr := if lk then m.pc + 4 else m.lr }
  | bc bo bi bd aa lk =>
    let ctr := if bo.getLsbD 2 then m.ctr else m.ctr - 1
    { m with
      pc := if taken bo ctr (m.cr bi) then (if aa then 0 else m.pc) + (bd ++ 0#2).signExtend 32 else m.pc + 4
      ctr := ctr
      lr := if lk then m.pc + 4 else m.lr }
  | mtctr rs => { m with pc := m.pc + 4, ctr := m.gpr rs }
  | bcctr bo bi lk =>
    { m with
      pc := if bo.getLsbD 4 || m.cr bi == bo.getLsbD 3 then m.ctr &&& 0xFFFFFFFC else m.pc + 4
      lr := if lk then m.pc + 4 else m.lr }
  | other w => sem w m

/-! ## Runs -/

section
variable (sem : Word → Machine → Machine) (code : Word → Word) (K : Word → Prop)

/-- One step at an address of kind `K`. -/
def StepOf (m m' : Machine) : Prop := K m.pc ∧ m' = exec sem (code m.pc) m

/-- A run of any length that fetches at addresses of kind `K` only. -/
def RunOf : Machine → Machine → Prop := Relation.ReflTransGen (StepOf sem code K)

/-- `ws` stand at `a` and behind it, at addresses of kind `K`. -/
def At : Word → List Word → Prop
  | _, [] => True
  | a, w :: ws => code a = w ∧ K a ∧ At (a + 4) ws

variable {sem code K} {m m₁ m₂ : Machine} {a w : Word} {ws ws' : List Word}

theorem RunOf.refl : RunOf sem code K m m := Relation.ReflTransGen.refl

theorem RunOf.trans (h₁ : RunOf sem code K m m₁) (h₂ : RunOf sem code K m₁ m₂) : RunOf sem code K m m₂ :=
  Relation.ReflTransGen.trans h₁ h₂

theorem RunOf.head (hc : code m.pc = w) (hk : K m.pc) (h : RunOf sem code K (exec sem w m) m₁) :
    RunOf sem code K m m₁ := by
  subst hc
  exact Relation.ReflTransGen.head ⟨hk, rfl⟩ h

theorem RunOf.preserves {I : Machine → Prop} (hI : ∀ m, K m.pc → I m → I (exec sem (code m.pc) m))
    (h : RunOf sem code K m m₁) (hm : I m) : I m₁ := by
  induction h with
  | refl => exact hm
  | tail _ step ih =>
    obtain ⟨hk, rfl⟩ := step
    exact hI _ hk ih

theorem RunOf.eq_of_not (h : RunOf sem code K m m₁) (hm : ¬ K m.pc) : m₁ = m := by
  rcases Relation.ReflTransGen.cases_head h with e | ⟨_, ⟨hk, _⟩, _⟩
  · exact e.symm
  · exact absurd hk hm

theorem RunOf.exit_unique (h₁ : RunOf sem code K m m₁) (h₂ : RunOf sem code K m m₂) (e₁ : ¬ K m₁.pc) (e₂ : ¬ K m₂.pc) :
    m₁ = m₂ := by
  induction h₁ using Relation.ReflTransGen.head_induction_on with
  | refl => exact (h₂.eq_of_not e₁).symm
  | head step _ ih =>
    obtain ⟨hk, rfl⟩ := step
    rcases Relation.ReflTransGen.cases_head h₂ with rfl | ⟨_, ⟨_, rfl⟩, h⟩
    · exact absurd hk e₂
    · exact ih h

theorem at_append : At code K a (ws ++ ws') ↔
    At code K a ws ∧ At code K (a + BitVec.ofNat 32 (4 * ws.length)) ws' := by
  induction ws generalizing a with
  | nil => simp [At]
  | cons w ws ih =>
    have e : a + 4 + BitVec.ofNat 32 (4 * ws.length) = a + BitVec.ofNat 32 (4 * (ws.length + 1)) := by
      rw [Nat.mul_add, Nat.add_comm, BitVec.ofNat_add, BitVec.add_assoc]
      rfl
    simp only [List.cons_append, At, ih, List.length_cons, e]
    constructor
    · intro ⟨h, hk, h₁, h₂⟩
      exact ⟨⟨h, hk, h₁⟩, h₂⟩
    · intro ⟨⟨h, hk, h₁⟩, h₂⟩
      exact ⟨h, hk, h₁, h₂⟩

end

/-! ## Constants and targets -/

def Aligned (a : Word) : Prop := a &&& 3 = 0

instance (a : Word) : Decidable (Aligned a) := inferInstanceAs (Decidable (a &&& 3 = 0))

theorem Aligned.and_mask {a : Word} (h : Aligned a) : a &&& 0xFFFFFFFC = a := by
  have e : (a &&& 3) ||| (a &&& 0xFFFFFFFC) = a := by
    rw [← BitVec.and_or_distrib_left]
    exact BitVec.and_allOnes
  rw [h] at e
  simpa using e

theorem aligned_iff (a : Word) : Aligned a ↔ a.toNat % 4 = 0 := by
  have h3 : (3 : Word).toNat = 2 ^ 2 - 1 := by decide
  unfold Aligned
  rw [← BitVec.toNat_inj, BitVec.toNat_and, h3, Nat.and_two_pow_sub_one_eq_mod]
  rfl

theorem add_four_ne (a : Word) : a + 4 ≠ a := by
  intro h
  have := add_left_cancel (h.trans (add_zero a).symm)
  exact absurd this (by decide)

theorem Aligned.add_four {a : Word} (h : Aligned a) : Aligned (a + 4) := by
  rw [aligned_iff] at h ⊢
  have : (4 : Word).toNat = 4 := rfl
  rw [BitVec.toNat_add, this]
  omega

theorem Aligned.add_three_masked {a : Word} (h : Aligned a) : (a + 4 - 1) &&& 0xFFFFFFFC = a := by
  have h3 : a &&& 3 = 0 := h
  have e : a + 4 - 1 = a ||| 3 := by
    rw [← BitVec.add_eq_or_of_and_eq_zero a 3 h3, add_sub_assoc]
    rfl
  rw [e, BitVec.and_comm, BitVec.and_or_distrib_left, BitVec.and_comm _ a, h.and_mask]
  exact BitVec.or_zero

theorem append_or_setWidth (a : Word) :
    (a.extractLsb' 16 16 ++ 0#16) ||| (a.extractLsb' 0 16).setWidth 32 = a := by
  apply BitVec.eq_of_getLsbD_eq
  intro i hi
  simp only [BitVec.getLsbD_or, BitVec.getLsbD_append, BitVec.getLsbD_setWidth, BitVec.getLsbD_extractLsb']
  by_cases h : i < 16
  · simp [h, hi]
  · have : 16 + (i - 16) = i := by omega
    have h' : i - 16 < 16 := by omega
    simp [h, h', this]

end PowerPC
