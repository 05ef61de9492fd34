import FunctionPatcher.ExportLookup
import FunctionPatcher.Walk
import Mathlib.Data.BitVec

/-!
# The loader's memory, byte by byte

`FindExportKernel` on the bytes it reads: the structures of `KernelFindExport.h`
by their offsets, big endian, C strings up to their terminator, and the linked
list of loaded modules. The `Kernel` it has been given so far is what the bytes
amount to.
-/

namespace FunctionPatcher

/-! ## The structures -/

abbrev Bytes := Word → BitVec 8

def read16 (m : Bytes) (a : Word) : BitVec 16 := m a ++ m (a + 1)

def read32 (m : Bytes) (a : Word) : Word := read16 m a ++ read16 m (a + 2)

def elfSectionHeaderAt (m : Bytes) (a : Word) : ElfSectionHeader where
  name := read32 m a
  type := read32 m (a + 0x04)
  size := read32 m (a + 0x14)
  link := read32 m (a + 0x18)
  entsize := read32 m (a + 0x24)

def elfSymbolAt (m : Bytes) (a : Word) : ElfSymbol where
  name := read32 m a
  value := read32 m (a + 0x04)
  info := m (a + 0x0C)
  shndx := read16 m (a + 0x0E)

section
variable (m : Bytes) (rpl : Word)

def moduleNameBuffer : Word := read32 m (rpl + 0x08)

def elfHeader : Word := rpl + 0x1C

def shentsize : BitVec 16 := read16 m (elfHeader rpl + 0x2E)

def shnum : BitVec 16 := read16 m (elfHeader rpl + 0x30)

def shstrndx : BitVec 16 := read16 m (elfHeader rpl + 0x32)

def sectionHeaderBuffer : Word := read32 m (rpl + 0x50)

def sectionAddressBuffer : Word := read32 m (rpl + 0xF4)

def nextLoadedRpl : Word := read32 m (rpl + 0x114)

def sectionAddress (i : Nat) : Word := read32 m (sectionAddressBuffer m rpl + 4 * BitVec.ofNat 32 i)

def sectionHeader (i : Nat) : ElfSectionHeader :=
  elfSectionHeaderAt m (sectionHeaderBuffer m rpl + (shentsize m rpl).setWidth 32 * BitVec.ofNat 32 i)

end

/-! ## `FindExportKernel` -/

/-- What the loader's address space holds. `rpl` is what `KernelGetLoadedRPL` returns. -/
structure LoaderMemory where
  bytes : Bytes
  getRAMPID : Word × Word
  rpl : Word

def nameOfText : List (BitVec 8) := [0x2E, 0x74, 0x65, 0x78, 0x74]

section
variable (m : Bytes) (fuel : Nat)

/-- `std::string_view` of a C string. -/
def stringView (a : Word) : Option (List (BitVec 8)) :=
  (Walk.walk (· + 1) (fun a => m a = 0) fuel a).map (·.map m)

def textSectionIndexAt (rpl : Word) : Word → List Nat → Option Word
  | index, [] => some index
  | index, i :: is =>
    if sectionAddress m rpl i = 0 then textSectionIndexAt rpl index is
    else if shstrndx m rpl ≠ 0 then
      match stringView m fuel (sectionAddress m rpl (shstrndx m rpl).toNat + (sectionHeader m rpl i).name) with
      | none => none
      | some sectionName => textSectionIndexAt rpl (if sectionName = nameOfText then BitVec.ofNat 32 i else index) is
    else textSectionIndexAt rpl index is

/-- The inner `none` is a table without the symbol. -/
def findSymbolAt (functionName textSection sectionAddress strTab symTabEntSize : Word) : List Nat → Option (Option Word)
  | [] => some none
  | j :: js =>
    let symbol := elfSymbolAt m (sectionAddress + BitVec.ofNat 32 j * symTabEntSize)
    if symbol.shndx.setWidth 32 = textSection ∧ ELF_ST_TYPE symbol.info = STT_FUNC then
      match stringView m fuel (strTab + symbol.name), stringView m fuel functionName with
      | some symbolName, some functionName' =>
        if symbolName = functionName' then some (some symbol.value)
        else findSymbolAt functionName textSection sectionAddress strTab symTabEntSize js
      | _, _ => none
    else findSymbolAt functionName textSection sectionAddress strTab symTabEntSize js

def findInSectionsAt (rpl functionName textSection : Word) : List Nat → Option Word
  | [] => some 0
  | i :: is =>
    if sectionAddress m rpl i = 0 then findInSectionsAt rpl functionName textSection is
    else
      let header := sectionHeader m rpl i
      if header.type = SHT_SYMTAB then
        let strTab := sectionAddress m rpl header.link.toNat
        let symTabEntSize := if header.entsize ≠ 0 then header.entsize else sizeofElfSymbol
        let numSymbols := (header.size / symTabEntSize).toNat
        match findSymbolAt m fuel functionName textSection (sectionAddress m rpl i) strTab symTabEntSize
            (List.range numSymbols) with
        | none => none
        | some (some value) => some value
        | some none => findInSectionsAt rpl functionName textSection is
      else findInSectionsAt rpl functionName textSection is

/-- The loop over the modules, for so many of them. -/
def findInRplsAt (rplName functionName : Word) : Nat → Word → Option Word
  | 0, _ => none
  | n + 1, rpl =>
    if rpl = 0 then some 0
    else
      match stringView m fuel (moduleNameBuffer m rpl), stringView m fuel rplName with
      | some moduleName, some rplName' =>
        if moduleName ≠ rplName' then findInRplsAt rplName functionName n (nextLoadedRpl m rpl)
        else
          let sections := List.range (shnum m rpl).toNat
          match textSectionIndexAt m fuel rpl 0xFFFFFFFF sections with
          | none => none
          | some textSection => findInSectionsAt m fuel rpl functionName textSection sections
      | _, _ => none

end

/-- `none` where a string or the list of modules has not ended within `fuel` steps. -/
def findExportKernelAt (L : LoaderMemory) (fuel : Nat) (rplName functionName : Word) :
    Option (Word × List (Word × Word)) :=
  if rplName = 0 ∨ functionName = 0 then some (0, [])
  else
    let err := L.getRAMPID.1
    let currentRamPID := L.getRAMPID.2
    if err ≠ -1 then
      (findInRplsAt L.bytes fuel rplName functionName fuel L.rpl).map fun result =>
        (result, [(err, 2), (err, currentRamPID)])
    else some (0, [])

/-! ## Strings -/

instance instFiniteWord : Finite Word := Finite.of_equiv _ BitVec.equivFin.symm.toEquiv

theorem card_word : Nat.card Word = 2 ^ 32 := by
  rw [Nat.card_congr BitVec.equivFin.toEquiv, Nat.card_fin]

/-- A string by its bytes, one character each. -/
def text (bytes : List (BitVec 8)) : String := String.ofList (bytes.map fun b => Char.ofNat b.toNat)

theorem toNat_ofNat_byte (b : BitVec 8) : (Char.ofNat b.toNat).toNat = b.toNat := by
  have hlt := b.isLt
  have h : b.toNat.isValidChar := .inl (by omega)
  unfold Char.ofNat
  rw [dif_pos h]
  rfl

theorem text_injective : Function.Injective text := by
  intro xs ys h
  refine List.map_injective_iff.mpr ?_ (String.ofList_injective h)
  intro b c hbc
  have h' := congrArg Char.toNat hbc
  rw [toNat_ofNat_byte, toNat_ofNat_byte] at h'
  exact BitVec.eq_of_toNat_eq h'

def cstring (m : Bytes) (a : Word) : List (BitVec 8) := (stringView m (2 ^ 32 + 1) a).getD []

def stringAt (m : Bytes) (a : Word) : String := text (cstring m a)

section
variable {m : Bytes} {fuel : Nat}

/-- Every string ends when there is a zero byte to be found. -/
theorem exists_visits_string {z : Word} (hz : m z = 0) (a : Word) :
    ∃ xs, Walk.Visits (· + 1) (fun a => m a = 0) a xs := by
  have hiter : ∀ (k : Nat) (b : Word), (· + 1)^[k] b = b + BitVec.ofNat 32 k := by
    intro k
    induction k with
    | zero => intro b; simp
    | succ k ih =>
      intro b
      rw [Function.iterate_succ_apply, ih, BitVec.add_assoc]
      congr 1
      rw [BitVec.ofNat_add, BitVec.add_comm]
      rfl
  refine Walk.exists_visits_of_iterate ⟨(z - a).toNat, ?_⟩
  rw [hiter, BitVec.ofNat_toNat, BitVec.setWidth_eq, BitVec.add_comm, BitVec.sub_add_cancel]
  exact decide_eq_true hz

theorem stringView_eq {z : Word} (hz : m z = 0) (hfuel : 2 ^ 32 < fuel) (a : Word) :
    stringView m fuel a = some (cstring m a) := by
  obtain ⟨xs, hv⟩ := exists_visits_string hz a
  have hlen := hv.length_le_card
  rw [card_word] at hlen
  have h : ∀ n, 2 ^ 32 < n → stringView m n a = some (xs.map m) := by
    intro n hn
    unfold stringView
    rw [hv.walk_eq (Nat.lt_of_le_of_lt hlen hn)]
    rfl
  unfold cstring
  rw [h fuel hfuel, h _ (Nat.lt_succ_self _)]
  rfl

theorem cstring_eq_iff {a b : Word} : cstring m a = cstring m b ↔ stringAt m a = stringAt m b :=
  text_injective.eq_iff.symm

theorem cstring_eq_text_iff {a : Word} : cstring m a = nameOfText ↔ stringAt m a = ".text" := by
  have h : text nameOfText = ".text" := by decide
  rw [← h]
  exact text_injective.eq_iff.symm

end

/-! ## The kernel that memory amounts to -/

def loadedRplAt (m : Bytes) (rpl : Word) : LoadedRpl where
  moduleNameBuffer := stringAt m (moduleNameBuffer m rpl)
  shnum := shnum m rpl
  shstrndx := shstrndx m rpl
  sectionHeader := sectionHeader m rpl
  sectionAddressBuffer := sectionAddress m rpl

def LoaderMemory.kernel (L : LoaderMemory) (rpls : List Word) : Kernel where
  getRAMPID := L.getRAMPID
  loadedRpls := rpls.map (loadedRplAt L.bytes)
  symbolAt := elfSymbolAt L.bytes
  stringAt := stringAt L.bytes

/-- The list of loaded modules ends, and these are its elements. -/
def LoaderMemory.Lists (L : LoaderMemory) (rpls : List Word) : Prop :=
  Walk.Visits (nextLoadedRpl L.bytes) (· = 0) L.rpl rpls

/-- The loop over the modules is left at `rpl`. -/
def LoaderMemory.leavesAt (L : LoaderMemory) (rplName rpl : Word) : Bool :=
  rpl = 0 || stringAt L.bytes (moduleNameBuffer L.bytes rpl) = stringAt L.bytes rplName

section
variable {L : LoaderMemory} {fuel : Nat} {z rpl rplName functionName : Word}

theorem textSectionIndexAt_eq (hz : L.bytes z = 0) (hfuel : 2 ^ 32 < fuel) (rpls : List Word) (index : Word)
    (is : List Nat) :
    textSectionIndexAt L.bytes fuel rpl index is =
      some (textSectionIndex (L.kernel rpls) (loadedRplAt L.bytes rpl) index is) := by
  induction is generalizing index with
  | nil => rfl
  | cons i is ih =>
    simp only [textSectionIndexAt, stringView_eq hz hfuel, cstring_eq_text_iff, ih]
    rw [textSectionIndex]
    by_cases ha : sectionAddress L.bytes rpl i = 0
    · rw [if_pos ha]
      exact congrArg some (if_pos ha).symm
    rw [if_neg ha]
    refine Eq.trans ?_ (congrArg some (if_neg ha).symm)
    by_cases hs : shstrndx L.bytes rpl ≠ 0
    · rw [if_pos hs]
      split
      · rename_i ht
        exact congrArg some (if_pos ⟨hs, ht⟩).symm
      · rename_i ht
        exact congrArg some (if_neg fun h => ht h.2).symm
    · rw [if_neg hs]
      exact congrArg some (if_neg fun h => hs h.1).symm

theorem findSymbolAt_eq (hz : L.bytes z = 0) (hfuel : 2 ^ 32 < fuel) (rpls : List Word)
    (textSection sectionAddress strTab symTabEntSize : Word) (js : List Nat) :
    findSymbolAt L.bytes fuel functionName textSection sectionAddress strTab symTabEntSize js =
      some (findSymbol (L.kernel rpls) (stringAt L.bytes functionName) textSection sectionAddress strTab
        symTabEntSize js) := by
  induction js with
  | nil => rfl
  | cons j js ih =>
    simp only [findSymbolAt, stringView_eq hz hfuel, cstring_eq_iff, ih]
    rw [findSymbol]
    split
    · rename_i hsym
      refine Eq.trans ?_ (congrArg some (if_pos hsym).symm)
      split
      · rename_i hname
        exact congrArg some (if_pos hname).symm
      · rename_i hname
        exact congrArg some (if_neg hname).symm
    · rename_i hsym
      exact congrArg some (if_neg hsym).symm

/-- A symbol table that is there has the symbol, or the later sections are asked. -/
theorem findInSections_symTab {i : Nat} (K : Kernel) (r : LoadedRpl) (name : String) (textSection : Word) (is : List Nat)
    (ha : r.sectionAddressBuffer i ≠ 0) (ht : (r.sectionHeader i).type = SHT_SYMTAB) :
    findInSections K r name textSection (i :: is) =
      (findSymbol K name textSection (r.sectionAddressBuffer i) (r.sectionAddressBuffer (r.sectionHeader i).link.toNat)
        (symTabEntSize (r.sectionHeader i))
        (List.range ((r.sectionHeader i).size / symTabEntSize (r.sectionHeader i)).toNat)).getD
          (findInSections K r name textSection is) := by
  rw [findInSections, if_neg ha, if_pos ht]
  have hent : (if (r.sectionHeader i).entsize ≠ 0 then (r.sectionHeader i).entsize else sizeofElfSymbol) =
      symTabEntSize (r.sectionHeader i) := rfl
  simp only [hent]
  cases findSymbol K name textSection (r.sectionAddressBuffer i) (r.sectionAddressBuffer (r.sectionHeader i).link.toNat)
    (symTabEntSize (r.sectionHeader i))
    (List.range ((r.sectionHeader i).size / symTabEntSize (r.sectionHeader i)).toNat) with
  | none => rfl
  | some value => rfl

theorem findInSectionsAt_eq (hz : L.bytes z = 0) (hfuel : 2 ^ 32 < fuel) (rpls : List Word) (textSection : Word)
    (is : List Nat) :
    findInSectionsAt L.bytes fuel rpl functionName textSection is =
      some (findInSections (L.kernel rpls) (loadedRplAt L.bytes rpl) (stringAt L.bytes functionName) textSection is) := by
  induction is with
  | nil => rfl
  | cons i is ih =>
    simp only [findInSectionsAt, findSymbolAt_eq hz hfuel rpls, ih]
    split
    · rename_i ha
      rw [findInSections]
      exact congrArg some (if_pos ha).symm
    rename_i ha
    split
    · rename_i ht
      have hsymTab := findInSections_symTab (L.kernel rpls) (loadedRplAt L.bytes rpl) (stringAt L.bytes functionName)
        textSection is ha ht
      split
      · rename_i e
        cases e
      · rename_i value e
        exact congrArg some (hsymTab.trans (congrArg (Option.getD · _) (Option.some.inj e))).symm
      · rename_i e
        exact congrArg some (hsymTab.trans (congrArg (Option.getD · _) (Option.some.inj e))).symm
    · rename_i ht
      rw [findInSections]
      exact congrArg some ((if_neg ha).trans (if_neg ht)).symm

/-- One round of the loop over the modules. -/
theorem findInRplsAt_succ (hz : L.bytes z = 0) (hfuel : 2 ^ 32 < fuel) (rpls : List Word) (n : Nat) (rpl : Word) :
    findInRplsAt L.bytes fuel rplName functionName (n + 1) rpl =
      if rpl = 0 then some 0
      else if stringAt L.bytes (moduleNameBuffer L.bytes rpl) ≠ stringAt L.bytes rplName then
        findInRplsAt L.bytes fuel rplName functionName n (nextLoadedRpl L.bytes rpl)
      else some (findInSections (L.kernel rpls) (loadedRplAt L.bytes rpl) (stringAt L.bytes functionName)
        (textSectionIndex (L.kernel rpls) (loadedRplAt L.bytes rpl) 0xFFFFFFFF (List.range (shnum L.bytes rpl).toNat))
        (List.range (shnum L.bytes rpl).toNat)) := by
  simp only [findInRplsAt, stringView_eq hz hfuel, textSectionIndexAt_eq hz hfuel rpls,
    findInSectionsAt_eq hz hfuel rpls, ne_eq, cstring_eq_iff]

theorem leavesAt_iff : L.leavesAt rplName rpl = true ↔
    rpl = 0 ∨ stringAt L.bytes (moduleNameBuffer L.bytes rpl) = stringAt L.bytes rplName := by
  simp only [LoaderMemory.leavesAt, Bool.or_eq_true, decide_eq_true_eq]

/-- What the lookup returns when the loop over the modules is left at `rpl`. -/
def LoaderMemory.exportAt (L : LoaderMemory) (functionName rpl : Word) : Word :=
  if rpl = 0 then 0 else (exportIn (L.kernel []) (loadedRplAt L.bytes rpl) (stringAt L.bytes functionName)).getD 0

theorem findInRplsAt_isSome (hz : L.bytes z = 0) (hfuel : 2 ^ 32 < fuel) (n : Nat) (rpl : Word) :
    (findInRplsAt L.bytes fuel rplName functionName n rpl).isSome =
      (Walk.walk (nextLoadedRpl L.bytes) (L.leavesAt rplName) n rpl).isSome := by
  induction n generalizing rpl with
  | zero => rfl
  | succ n ih =>
    rw [findInRplsAt_succ hz hfuel [], Walk.walk]
    by_cases h0 : rpl = 0
    · rw [if_pos h0, if_pos (leavesAt_iff.mpr (.inl h0))]
      rfl
    rw [if_neg h0]
    by_cases hname : stringAt L.bytes (moduleNameBuffer L.bytes rpl) ≠ stringAt L.bytes rplName
    · rw [if_pos hname, if_neg (fun h => (leavesAt_iff.mp h).elim h0 hname), Option.isSome_map]
      exact ih _
    · rw [if_neg hname, if_pos (leavesAt_iff.mpr (.inr (not_not.mp hname)))]
      rfl

theorem findInRplsAt_visits (hz : L.bytes z = 0) (hfuel : 2 ^ 32 < fuel) {n : Nat} {xs : List Word}
    (h : Walk.Visits (nextLoadedRpl L.bytes) (L.leavesAt rplName) rpl xs) (hn : xs.length < n) :
    findInRplsAt L.bytes fuel rplName functionName n rpl =
      some (L.exportAt functionName ((nextLoadedRpl L.bytes)^[xs.length] rpl)) := by
  induction h generalizing n with
  | @stop rpl hleave =>
    cases n with
    | zero => cases hn
    | succ n =>
      rw [findInRplsAt_succ hz hfuel []]
      show _ = some (L.exportAt functionName rpl)
      unfold LoaderMemory.exportAt
      by_cases h0 : rpl = 0
      · rw [if_pos h0, if_pos h0]
      · have hname := (leavesAt_iff.mp hleave).resolve_left h0
        rw [if_neg h0, if_neg h0, if_neg (not_not.mpr hname)]
        exact congrArg some (findInSections_eq _)
  | @step rpl xs hstay _ ih =>
    cases n with
    | zero => cases hn
    | succ n =>
      have h0 : rpl ≠ 0 := fun h0 => Bool.eq_false_iff.mp hstay (leavesAt_iff.mpr (.inl h0))
      have hname := fun e => Bool.eq_false_iff.mp hstay (leavesAt_iff.mpr (.inr e))
      rw [findInRplsAt_succ hz hfuel [], if_neg h0, if_pos hname, ih (Nat.lt_of_succ_lt_succ hn)]
      rfl

theorem findInRplsAt_lists (hz : L.bytes z = 0) (hfuel : 2 ^ 32 < fuel) (rpls : List Word) {n : Nat} {rpls' : List Word}
    (h : Walk.Visits (nextLoadedRpl L.bytes) (· = 0) rpl rpls') (hn : rpls'.length < n) :
    findInRplsAt L.bytes fuel rplName functionName n rpl =
      some (findInRpls (L.kernel rpls) (stringAt L.bytes rplName) (stringAt L.bytes functionName)
        (rpls'.map (loadedRplAt L.bytes))) := by
  induction h generalizing n with
  | stop h0 =>
    cases n with
    | zero => cases hn
    | succ n =>
      rw [findInRplsAt_succ hz hfuel rpls, if_pos (of_decide_eq_true h0)]
      rfl
  | @step rpl rpls' h0 _ ih =>
    cases n with
    | zero => cases hn
    | succ n =>
      rw [findInRplsAt_succ hz hfuel rpls, if_neg (of_decide_eq_false h0), List.map_cons, findInRpls,
        ih (Nat.lt_of_succ_lt_succ hn)]
      split
      · rename_i hname
        exact congrArg some (if_pos hname).symm
      · rename_i hname
        exact congrArg some (if_neg hname).symm

end

/-- **Lookup in memory.** `FindExportKernel` comes to an end if and only if the list of modules does, or
reaches the module before it turns back on itself. It then returns the export of the first module that has
the name, and on a list it does what it does on the kernel that the bytes amount to. -/
theorem findExportKernelAt_finds {L : LoaderMemory} {fuel : Nat} {z rplName functionName : Word} (hz : L.bytes z = 0)
    (hfuel : 2 ^ 32 < fuel) (hrpl : rplName ≠ 0) (hfunction : functionName ≠ 0) (herr : L.getRAMPID.1 ≠ -1) :
    ((findExportKernelAt L fuel rplName functionName).isSome = true ↔
      ∃ k, L.leavesAt rplName ((nextLoadedRpl L.bytes)^[k] L.rpl) = true) ∧
    (∀ k, (∀ i < k, L.leavesAt rplName ((nextLoadedRpl L.bytes)^[i] L.rpl) = false) →
      L.leavesAt rplName ((nextLoadedRpl L.bytes)^[k] L.rpl) = true →
      findExportKernelAt L fuel rplName functionName =
        some (L.exportAt functionName ((nextLoadedRpl L.bytes)^[k] L.rpl), [(L.getRAMPID.1, 2), L.getRAMPID])) ∧
    ∀ rpls, L.Lists rpls → findExportKernelAt L fuel rplName functionName =
      some (findExportKernel (L.kernel rpls) (stringAt L.bytes rplName) (stringAt L.bytes functionName)) := by
  have hlookup : findExportKernelAt L fuel rplName functionName =
      (findInRplsAt L.bytes fuel rplName functionName fuel L.rpl).map fun result =>
        (result, [(L.getRAMPID.1, 2), L.getRAMPID]) := by
    unfold findExportKernelAt
    rw [if_neg (fun h => h.elim hrpl hfunction), if_pos herr]
  have hbound : ∀ {stop : Word → Bool} {xs : List Word}, Walk.Visits (nextLoadedRpl L.bytes) stop L.rpl xs →
      xs.length < fuel := by
    intro stop xs h
    have hlen := h.length_le_card
    rw [card_word] at hlen
    exact Nat.lt_of_le_of_lt hlen hfuel
  rw [hlookup]
  refine ⟨?_, ?_, ?_⟩
  · rw [Option.isSome_map, findInRplsAt_isSome hz hfuel]
    exact Walk.walk_isSome_iff (by rw [card_word]; exact hfuel)
  · intro k hstay hleave
    obtain ⟨xs, hv, rfl⟩ := Walk.exists_visits_of_first hstay hleave
    rw [findInRplsAt_visits hz hfuel hv (hbound hv)]
    rfl
  · intro rpls hl
    rw [findInRplsAt_lists hz hfuel rpls hl (hbound hl)]
    exact congrArg some (if_pos herr).symm

/-! ## Two modules, one of them with an export -/

def bytesOf : List (Word × List (BitVec 8)) → Bytes
  | [], _ => 0
  | (start, bytes) :: regions, a =>
    if (a - start).toNat < bytes.length then bytes.getD (a - start).toNat 0 else bytesOf regions a

/-- `menu` comes first in the list. Of `game` the section headers, their addresses, the symbol table and the
string table. -/
def gameMemory : LoaderMemory where
  bytes := bytesOf
    [(0x1208, [0, 0, 0x20, 0x0C]), (0x1314, [0, 0, 0x10, 0]),
      (0x1008, [0, 0, 0x20, 0]), (0x104A, [0, 0x28, 0, 4, 0, 3]), (0x1050, [0, 0, 0x30, 0]), (0x10F4, [0, 0, 0x40, 0]),
      (0x2000, [0x67, 0x61, 0x6D, 0x65, 0, 0x67, 0x61, 0x6D, 0x65, 0, 0x66, 0, 0x6D, 0x65, 0x6E, 0x75, 0]),
      (0x3028, [0, 0, 0, 1]), (0x3054, [0, 0, 0, 2]), (0x3064, [0, 0, 0, 0x10, 0, 0, 0, 3]),
      (0x4004, [2, 0, 0, 0, 0, 0, 0x60, 0, 0, 0, 0x70, 0]),
      (0x6000, [0, 0, 0, 7, 2, 0, 1, 0, 0, 0, 0, 0, 2, 0, 0, 1]),
      (0x7000, [0, 0x2E, 0x74, 0x65, 0x78, 0x74, 0, 0x66, 0])]
  getRAMPID := (1, 7)
  rpl := 0x1200

theorem findExportKernelAt_finds_game :
    findExportKernelAt gameMemory (2 ^ 32 + 1) 0x2005 0x200A = some (0x02000100, [(1, 2), (1, 7)]) := by
  have hnext : nextLoadedRpl gameMemory.bytes 0x1200 = 0x1000 := by decide +kernel
  have hlist : gameMemory.Lists [0x1200, 0x1000] := by
    refine .step (by decide) ?_
    rw [show nextLoadedRpl gameMemory.bytes gameMemory.rpl = 0x1000 from hnext]
    exact .step (by decide) (.stop (by decide +kernel))
  have hexport : findExportKernel (gameMemory.kernel [0x1200, 0x1000]) (stringAt gameMemory.bytes 0x2005)
      (stringAt gameMemory.bytes 0x200A) = (0x02000100, [(1, 2), (1, 7)]) := by decide +kernel
  rw [(findExportKernelAt_finds (z := 0) (by decide +kernel) (Nat.lt_succ_self _) (by decide) (by decide) (by decide)).2.2
    [0x1200, 0x1000] hlist, hexport]

end FunctionPatcher
