import FunctionPatcher.State

/-!
# Export lookup in the loader's module list (`utils/KernelFindExport.cpp`)

`FindExportKernel` runs in the kernel, in the loader's address space: it walks
the list of loaded modules, their section tables and their symbol tables. What
it reads there by address is given by `Kernel`.
-/

namespace FunctionPatcher

def endsWith (s suffix : String) : Bool := suffix.toList.isSuffixOf s.toList

structure ElfSectionHeader where
  name : Word
  type : Word
  size : Word
  link : Word
  entsize : Word

structure ElfSymbol where
  name : Word
  value : Word
  info : BitVec 8
  shndx : BitVec 16

/-- A `LOADED_RPL`: its header's section count and string table index, its section
headers and the addresses its sections were loaded to (0 for those that were not). -/
structure LoadedRpl where
  moduleNameBuffer : String
  shnum : BitVec 16
  shstrndx : BitVec 16
  sectionHeader : Nat → ElfSectionHeader
  sectionAddressBuffer : Nat → Word

/-- The kernel as `FindExportKernel` uses it. `getRAMPID` is the pair of the returned
value and the `currentRamPID` it stores. -/
structure Kernel where
  getRAMPID : Word × Word
  loadedRpls : List LoadedRpl
  symbolAt : Word → ElfSymbol
  stringAt : Word → String

def SHT_SYMTAB : Word := 2
def STT_FUNC : BitVec 8 := 2
def ELF_ST_TYPE (i : BitVec 8) : BitVec 8 := i &&& 0xf
def sizeofElfSymbol : Word := 16

section
variable (K : Kernel) (rpl : LoadedRpl)

/-- The first loop over the sections. `shstrndx = 0` means that there is no name table. -/
def textSectionIndex : Word → List Nat → Word
  | index, [] => index
  | index, i :: is =>
    if rpl.sectionAddressBuffer i = 0 then textSectionIndex index is
    else if rpl.shstrndx ≠ 0 ∧
        K.stringAt (rpl.sectionAddressBuffer rpl.shstrndx.toNat + (rpl.sectionHeader i).name) = ".text" then
      textSectionIndex (BitVec.ofNat 32 i) is
    else textSectionIndex index is

def findSymbol (functionName : String) (textSection sectionAddress strTab symTabEntSize : Word) :
    List Nat → Option Word
  | [] => none
  | j :: js =>
    let symbol := K.symbolAt (sectionAddress + BitVec.ofNat 32 j * symTabEntSize)
    if symbol.shndx.setWidth 32 = textSection ∧ ELF_ST_TYPE symbol.info = STT_FUNC then
      if K.stringAt (strTab + symbol.name) = functionName then some symbol.value
      else findSymbol functionName textSection sectionAddress strTab symTabEntSize js
    else findSymbol functionName textSection sectionAddress strTab symTabEntSize js

def findInSections (functionName : String) (textSection : Word) : List Nat → Word
  | [] => 0
  | i :: is =>
    if rpl.sectionAddressBuffer i = 0 then findInSections functionName textSection is
    else if (rpl.sectionHeader i).type = SHT_SYMTAB then
      let header := rpl.sectionHeader i
      let strTab := rpl.sectionAddressBuffer header.link.toNat
      let symTabEntSize := if header.entsize ≠ 0 then header.entsize else sizeofElfSymbol
      let numSymbols := (header.size / symTabEntSize).toNat
      match findSymbol K functionName textSection (rpl.sectionAddressBuffer i) strTab symTabEntSize
          (List.range numSymbols) with
      | some value => value
      | none => findInSections functionName textSection is
    else findInSections functionName textSection is

end

def findInRpls (K : Kernel) (rplName functionName : String) : List LoadedRpl → Word
  | [] => 0
  | rpl :: rpls =>
    if rpl.moduleNameBuffer ≠ rplName then findInRpls K rplName functionName rpls
    else
      let sections := List.range rpl.shnum.toNat
      findInSections K rpl functionName (textSectionIndex K rpl 0xFFFFFFFF sections) sections

/-- The result and the calls `KernelSetRAMPID(err, pid)` in order. -/
def findExportKernel (K : Kernel) (rplName functionName : String) : Word × List (Word × Word) :=
  let err := K.getRAMPID.1
  let currentRamPID := K.getRAMPID.2
  if err ≠ -1 then
    (findInRpls K rplName functionName K.loadedRpls, [(err, 2), (err, currentRamPID)])
  else (0, [])

def kernelFindExport (K : Kernel) (rplName functionName : String) : Word :=
  if endsWith rplName ".rpx" || endsWith rplName ".rpl" then
    (findExportKernel K (String.ofList (rplName.toList.take (rplName.toList.length - 4))) functionName).1
  else (findExportKernel K rplName functionName).1

end FunctionPatcher
