import FunctionPatcher.KernelFindExport
import Mathlib.Tactic.Common

/-!
# What `FindExportKernel` finds

The nested loops find the first function symbol with the name in the module's
last loaded `.text` section, in the order of the sections and of their symbols.
The loops are followed once more with the divisions they make and the symbol
slots they read.
-/

namespace FunctionPatcher

/-! ## The specification -/

section
variable (K : Kernel) (rpl : LoadedRpl)

def isText (i : Nat) : Bool :=
  rpl.sectionAddressBuffer i ≠ 0 && (rpl.shstrndx ≠ 0 &&
    K.stringAt (rpl.sectionAddressBuffer rpl.shstrndx.toNat + (rpl.sectionHeader i).name) = ".text")

def textSection : Option Nat := ((List.range rpl.shnum.toNat).filter (isText K rpl)).getLast?

def isSymTab (i : Nat) : Bool := rpl.sectionAddressBuffer i ≠ 0 && (rpl.sectionHeader i).type = SHT_SYMTAB

def symTabEntSize (table : ElfSectionHeader) : Word := if table.entsize ≠ 0 then table.entsize else sizeofElfSymbol

def numSymbols (table : ElfSectionHeader) : Nat := table.size.toNat / (symTabEntSize table).toNat

def symbolSlots : List (Nat × Nat) :=
  ((List.range rpl.shnum.toNat).filter (isSymTab rpl)).flatMap fun i =>
    (List.range (numSymbols (rpl.sectionHeader i))).map fun j => (i, j)

def symbolOf (x : Nat × Nat) : ElfSymbol :=
  K.symbolAt (rpl.sectionAddressBuffer x.1 + BitVec.ofNat 32 x.2 * symTabEntSize (rpl.sectionHeader x.1))

def symbolName (x : Nat × Nat) : String :=
  K.stringAt (rpl.sectionAddressBuffer (rpl.sectionHeader x.1).link.toNat + (symbolOf K rpl x).name)

def isExport (functionName : String) (x : Nat × Nat) : Bool :=
  textSection K rpl = some (symbolOf K rpl x).shndx.toNat && (ELF_ST_TYPE (symbolOf K rpl x).info = STT_FUNC &&
    symbolName K rpl x = functionName)

def exportIn (functionName : String) : Option Word :=
  ((symbolSlots rpl).find? (isExport K rpl functionName)).map fun x => (symbolOf K rpl x).value

def exportOf (rplName functionName : String) : Word :=
  ((K.loadedRpls.find? fun rpl => rpl.moduleNameBuffer = rplName).bind fun rpl => exportIn K rpl functionName).getD 0

end

/-! ## The loops meet it -/

section
variable {K : Kernel} {rpl : LoadedRpl} {functionName rplName : String}

theorem isText_iff {i : Nat} : isText K rpl i = true ↔ rpl.sectionAddressBuffer i ≠ 0 ∧ rpl.shstrndx ≠ 0 ∧
    K.stringAt (rpl.sectionAddressBuffer rpl.shstrndx.toNat + (rpl.sectionHeader i).name) = ".text" := by
  simp only [isText, Bool.and_eq_true, decide_eq_true_eq]

theorem isSymTab_iff {i : Nat} : isSymTab rpl i = true ↔
    rpl.sectionAddressBuffer i ≠ 0 ∧ (rpl.sectionHeader i).type = SHT_SYMTAB := by
  simp only [isSymTab, Bool.and_eq_true, decide_eq_true_eq]

theorem isExport_iff {x : Nat × Nat} : isExport K rpl functionName x = true ↔
    textSection K rpl = some (symbolOf K rpl x).shndx.toNat ∧
      ELF_ST_TYPE (symbolOf K rpl x).info = STT_FUNC ∧ symbolName K rpl x = functionName := by
  simp only [isExport, Bool.and_eq_true, decide_eq_true_eq]

theorem textSectionIndex_eq (is : List Nat) (index : Word) : textSectionIndex K rpl index is =
    ((is.filter (isText K rpl)).getLast?.map (BitVec.ofNat 32)).getD index := by
  induction is generalizing index with
  | nil => rfl
  | cons i is ih =>
    rw [textSectionIndex]
    by_cases ha : rpl.sectionAddressBuffer i = 0
    · rw [if_pos ha, ih, List.filter_cons_of_neg fun h => (isText_iff.mp h).1 ha]
    rw [if_neg ha]
    split
    · rename_i ht
      rw [ih, List.filter_cons_of_pos (isText_iff.mpr ⟨ha, ht⟩), List.getLast?_cons]
      cases (is.filter (isText K rpl)).getLast? with
      | none => rfl
      | some _ => rfl
    · rename_i ht
      rw [ih, List.filter_cons_of_neg fun h => ht (isText_iff.mp h).2]

theorem shndx_eq_textSection_iff (shndx : BitVec 16) :
    shndx.setWidth 32 = textSectionIndex K rpl 0xFFFFFFFF (List.range rpl.shnum.toNat) ↔
      textSection K rpl = some shndx.toNat := by
  have hlt := shndx.isLt
  rw [textSectionIndex_eq]
  unfold textSection
  cases ht : ((List.range rpl.shnum.toNat).filter (isText K rpl)).getLast? with
  | none =>
    refine iff_of_false (fun h => ?_) (by simp)
    have := congrArg BitVec.toNat h
    simp at this
    omega
  | some t =>
    have hmem := List.mem_range.mp (List.mem_filter.mp (List.mem_of_getLast? ht)).1
    have ht := rpl.shnum.isLt
    simp only [Option.map_some, Option.getD_some, Option.some.injEq]
    rw [← BitVec.toNat_inj, BitVec.toNat_setWidth, BitVec.toNat_ofNat, Nat.mod_eq_of_lt (by omega),
      Nat.mod_eq_of_lt (by omega)]
    exact eq_comm

theorem findSymbol_eq (i : Nat) : ∀ js : List Nat,
    findSymbol K functionName (textSectionIndex K rpl 0xFFFFFFFF (List.range rpl.shnum.toNat))
        (rpl.sectionAddressBuffer i) (rpl.sectionAddressBuffer (rpl.sectionHeader i).link.toNat)
        (symTabEntSize (rpl.sectionHeader i)) js =
      ((js.map fun j => (i, j)).find? (isExport K rpl functionName)).map fun x => (symbolOf K rpl x).value
  | [] => rfl
  | j :: js => by
    have ih := findSymbol_eq i js
    have hx : isExport K rpl functionName (i, j) = true ↔ _ := isExport_iff
    rw [← shndx_eq_textSection_iff] at hx
    rw [findSymbol, List.map_cons]
    split
    · rename_i hs
      split
      · rename_i hn
        rw [List.find?_cons_of_pos (hx.mpr ⟨hs.1, hs.2, hn⟩)]
        rfl
      · rename_i hn
        rw [List.find?_cons_of_neg fun h => hn (hx.mp h).2.2, ih]
    · rename_i hs
      rw [List.find?_cons_of_neg fun h => hs ⟨(hx.mp h).1, (hx.mp h).2.1⟩, ih]

theorem numSymbols_eq (table : ElfSectionHeader) : (table.size / symTabEntSize table).toNat = numSymbols table :=
  BitVec.toNat_udiv

theorem findInSections_eq : ∀ is : List Nat,
    findInSections K rpl functionName (textSectionIndex K rpl 0xFFFFFFFF (List.range rpl.shnum.toNat)) is =
      ((((is.filter (isSymTab rpl)).flatMap fun i =>
        (List.range (numSymbols (rpl.sectionHeader i))).map fun j => (i, j)).find? (isExport K rpl functionName)).map
          fun x => (symbolOf K rpl x).value).getD 0
  | [] => rfl
  | i :: is => by
    have ih := findInSections_eq is
    rw [findInSections]
    by_cases ha : rpl.sectionAddressBuffer i = 0
    · rw [if_pos ha, ih, List.filter_cons_of_neg fun h => (isSymTab_iff.mp h).1 ha]
    rw [if_neg ha]
    by_cases ht : (rpl.sectionHeader i).type = SHT_SYMTAB
    · rw [if_pos ht, List.filter_cons_of_pos (isSymTab_iff.mpr ⟨ha, ht⟩), List.flatMap_cons, List.find?_append]
      have hent : (if (rpl.sectionHeader i).entsize ≠ 0 then (rpl.sectionHeader i).entsize else sizeofElfSymbol) =
          symTabEntSize (rpl.sectionHeader i) := rfl
      simp only [hent]
      rw [findSymbol_eq, ih, ← numSymbols_eq]
      cases ((List.range ((rpl.sectionHeader i).size / symTabEntSize (rpl.sectionHeader i)).toNat).map
        fun j => (i, j)).find? (isExport K rpl functionName) with
      | some x => rfl
      | none => rfl
    · rw [if_neg ht, ih, List.filter_cons_of_neg fun h => ht (isSymTab_iff.mp h).2]

theorem findInRpls_eq : ∀ rpls : List LoadedRpl, findInRpls K rplName functionName rpls =
    ((rpls.find? fun rpl => rpl.moduleNameBuffer = rplName).bind fun rpl => exportIn K rpl functionName).getD 0
  | [] => rfl
  | rpl :: rpls => by
    rw [findInRpls]
    by_cases hn : rpl.moduleNameBuffer = rplName
    · rw [if_neg (not_not.mpr hn), List.find?_cons_of_pos (by simp [hn])]
      exact findInSections_eq _
    · rw [if_pos hn, findInRpls_eq rpls, List.find?_cons_of_neg (by simp [hn])]

end

/-! ## The accesses of the loops -/

inductive Access where
  | divide (size entSize : Word)
  | slot (table : ElfSectionHeader) (j : Nat)

/-- No division by zero, no slot behind the end of its table. -/
def Access.Safe : Access → Prop
  | .divide _ entSize => entSize ≠ 0
  | .slot table j => j < numSymbols table

section
variable (K : Kernel) (rpl : LoadedRpl) (rplName functionName : String)

/-- `findSymbol` with the slots it reads. -/
def findSymbolTraced (textSection sectionAddress strTab entSize : Word) : List Nat → Option Word × List Nat
  | [] => (none, [])
  | j :: js =>
    let rest := findSymbolTraced textSection sectionAddress strTab entSize js
    let symbol := K.symbolAt (sectionAddress + BitVec.ofNat 32 j * entSize)
    if symbol.shndx.setWidth 32 = textSection ∧ ELF_ST_TYPE symbol.info = STT_FUNC then
      if K.stringAt (strTab + symbol.name) = functionName then (some symbol.value, [j])
      else (rest.1, j :: rest.2)
    else (rest.1, j :: rest.2)

def findInSectionsTraced (textSection : Word) : List Nat → Word × List Access
  | [] => (0, [])
  | i :: is =>
    let rest := findInSectionsTraced textSection is
    if rpl.sectionAddressBuffer i = 0 then rest
    else if (rpl.sectionHeader i).type = SHT_SYMTAB then
      let header := rpl.sectionHeader i
      let strTab := rpl.sectionAddressBuffer header.link.toNat
      let numSymbols := (header.size / symTabEntSize header).toNat
      let found := findSymbolTraced K functionName textSection (rpl.sectionAddressBuffer i) strTab
        (symTabEntSize header) (List.range numSymbols)
      let accesses := .divide header.size (symTabEntSize header) :: found.2.map (.slot header)
      match found.1 with
      | some value => (value, accesses)
      | none => (rest.1, accesses ++ rest.2)
    else rest

def findInRplsTraced : List LoadedRpl → Word × List Access
  | [] => (0, [])
  | rpl :: rpls =>
    if rpl.moduleNameBuffer ≠ rplName then findInRplsTraced rpls
    else
      let sections := List.range rpl.shnum.toNat
      findInSectionsTraced K rpl functionName (textSectionIndex K rpl 0xFFFFFFFF sections) sections

def findExportKernelTraced : Word × List Access :=
  if K.getRAMPID.1 ≠ -1 then findInRplsTraced K rplName functionName K.loadedRpls else (0, [])

/-- The address space the calls of `KernelSetRAMPID` end in. -/
def addressSpaceAfter (calls : List (Word × Word)) : Word := calls.foldl (fun _ call => call.2) K.getRAMPID.2

end

section
variable {K : Kernel} {rpl : LoadedRpl} {functionName rplName : String}

theorem findSymbolTraced_spec (textSection sectionAddress strTab entSize : Word) : ∀ js : List Nat,
    (findSymbolTraced K functionName textSection sectionAddress strTab entSize js).1 =
      findSymbol K functionName textSection sectionAddress strTab entSize js ∧
    (findSymbolTraced K functionName textSection sectionAddress strTab entSize js).2 ⊆ js
  | [] => ⟨rfl, List.Subset.refl _⟩
  | j :: js => by
    obtain ⟨ih, hsub⟩ := findSymbolTraced_spec textSection sectionAddress strTab entSize js
    have hcons := List.cons_subset_cons j hsub
    simp only [findSymbolTraced, findSymbol]
    split
    · split
      · exact ⟨rfl, by simp⟩
      · exact ⟨ih, hcons⟩
    · exact ⟨ih, hcons⟩

theorem symTabEntSize_ne_zero (table : ElfSectionHeader) : symTabEntSize table ≠ 0 := by
  unfold symTabEntSize
  split
  · assumption
  · decide

theorem findInSectionsTraced_spec (textSection : Word) : ∀ is : List Nat,
    (findInSectionsTraced K rpl functionName textSection is).1 = findInSections K rpl functionName textSection is ∧
    ∀ x ∈ (findInSectionsTraced K rpl functionName textSection is).2, x.Safe
  | [] => ⟨rfl, by simp [findInSectionsTraced]⟩
  | i :: is => by
    have ih := findInSectionsTraced_spec textSection is
    simp only [findInSectionsTraced, findInSections]
    split
    · exact ih
    split
    · have hspec : (findSymbolTraced K functionName textSection _ _ _ _).1 = _ ∧ _ :=
        findSymbolTraced_spec textSection (rpl.sectionAddressBuffer i)
          (rpl.sectionAddressBuffer (rpl.sectionHeader i).link.toNat) (symTabEntSize (rpl.sectionHeader i))
          (List.range ((rpl.sectionHeader i).size / symTabEntSize (rpl.sectionHeader i)).toNat)
      change (match (findSymbolTraced K functionName textSection _ _ _ _).1 with
        | some value => (value, _) | none => _ : Word × List Access).1 =
        (match findSymbol K functionName textSection _ _ (symTabEntSize (rpl.sectionHeader i)) (List.range
            ((rpl.sectionHeader i).size / symTabEntSize (rpl.sectionHeader i)).toNat) with
          | some value => value | none => _) ∧ _
      rw [← hspec.1]
      generalize findSymbolTraced K functionName textSection _ _ _ _ = found at hspec ⊢
      have hsafe : ∀ x ∈ Access.divide (rpl.sectionHeader i).size (symTabEntSize (rpl.sectionHeader i)) ::
          found.2.map (.slot (rpl.sectionHeader i)), x.Safe := by
        intro x hx
        rcases List.mem_cons.mp hx with rfl | hx
        · exact symTabEntSize_ne_zero _
        · obtain ⟨j, hj, rfl⟩ := List.mem_map.mp hx
          have hj := List.mem_range.mp (hspec.2 hj)
          rwa [numSymbols_eq] at hj
      cases found.1 with
      | some value => exact ⟨rfl, hsafe⟩
      | none => exact ⟨ih.1, fun x hx => (List.mem_append.mp hx).elim (hsafe x) (ih.2 x)⟩
    · exact ih

theorem findInRplsTraced_spec : ∀ rpls : List LoadedRpl,
    (findInRplsTraced K rplName functionName rpls).1 = findInRpls K rplName functionName rpls ∧
    ∀ x ∈ (findInRplsTraced K rplName functionName rpls).2, x.Safe
  | [] => ⟨rfl, by simp [findInRplsTraced]⟩
  | rpl :: rpls => by
    simp only [findInRplsTraced, findInRpls]
    split
    · exact findInRplsTraced_spec rpls
    · exact findInSectionsTraced_spec _ _

end

/-- **Export lookup.** Unless the address space is unknown, `FindExportKernel` returns the value of the
symbol that is specified, or 0. It divides and reads symbols safely, and ends in the address space it
started from. -/
theorem findExportKernel_finds (K : Kernel) (rplName functionName : String) :
    (findExportKernel K rplName functionName).1 =
      (if K.getRAMPID.1 = -1 then 0 else exportOf K rplName functionName) ∧
    (findExportKernelTraced K rplName functionName).1 = (findExportKernel K rplName functionName).1 ∧
    (∀ x ∈ (findExportKernelTraced K rplName functionName).2, x.Safe) ∧
    addressSpaceAfter K (findExportKernel K rplName functionName).2 = K.getRAMPID.2 := by
  obtain ⟨hvalue, hsafe⟩ := findInRplsTraced_spec (K := K) K.loadedRpls
  unfold findExportKernel findExportKernelTraced
  by_cases herr : K.getRAMPID.1 = -1
  · simp only [herr, ne_eq, not_true, if_false, if_true]
    exact ⟨trivial, trivial, by simp, rfl⟩
  · simp only [herr, ne_eq, not_false_eq_true, if_false, if_true]
    exact ⟨findInRpls_eq _, hvalue, hsafe, rfl⟩

def oneExport (err : Word) : Kernel where
  getRAMPID := (err, 7)
  loadedRpls := [{
    moduleNameBuffer := "game"
    shnum := 4
    shstrndx := 3
    sectionHeader := fun i => if i = 2 then ⟨8, SHT_SYMTAB, 16, 3, 0⟩ else ⟨if i = 1 then 0 else 8, 1, 0, 0, 0⟩
    sectionAddressBuffer := fun i => BitVec.ofNat 32 (0x1000 * i) }]
  symbolAt := fun _ => ⟨16, 0x02000100, STT_FUNC, 1⟩
  stringAt := fun a => if a = 0x3000 then ".text" else if a = 0x3010 then "f" else ""

theorem findExportKernel_unknown_space :
    exportOf (oneExport (-1)) "game" "f" = 0x02000100 ∧
    (findExportKernel (oneExport (-1)) "game" "f").1 ≠ exportOf (oneExport (-1)) "game" "f" := by decide

end FunctionPatcher
