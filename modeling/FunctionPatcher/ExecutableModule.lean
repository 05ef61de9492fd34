import FunctionPatcher.Runs
import FunctionPatcher.ExportLookup

/-!
# The module an executable patch names

By address, the module is the first one whose path ends in the name. By name, it
is the first one in the loader's list whose name is the one without the
extension.
-/

namespace FunctionPatcher

/-! ## Searching for less -/

theorem find?_eq_find?_iff {α : Type*} {p q : α → Bool} (hpq : ∀ x, q x = true → p x = true) : ∀ l : List α,
    (l.find? p = l.find? q ↔ ¬ ∃ pre x post, l = pre ++ x :: post ∧ p x = true ∧ q x = false ∧ ∀ y ∈ pre, q y = false)
  | [] => by simp
  | x :: l => by
    by_cases hq : q x = true
    · rw [List.find?_cons_of_pos hq, List.find?_cons_of_pos (hpq x hq)]
      refine iff_of_true rfl ?_
      intro ⟨pre, y, post, hl, _, hy, hpre⟩
      cases pre with
      | nil =>
        cases hl
        rw [hq] at hy
        cases hy
      | cons z pre =>
        cases hl
        rw [hpre x (List.mem_cons_self ..)] at hq
        cases hq
    rw [Bool.not_eq_true] at hq
    have hskip : (x :: l).find? q = l.find? q := List.find?_cons_of_neg (by simp [hq])
    rw [hskip]
    by_cases hp : p x = true
    · rw [List.find?_cons_of_pos hp]
      refine iff_of_false ?_ (not_not.mpr ⟨[], x, l, rfl, hp, hq, by simp⟩)
      intro h
      have := List.find?_some h.symm
      rw [hq] at this
      cases this
    · rw [List.find?_cons_of_neg hp, find?_eq_find?_iff hpq l, not_iff_not]
      constructor
      · intro ⟨pre, y, post, hl, hy, hy', hpre⟩
        refine ⟨x :: pre, y, post, by rw [hl]; rfl, hy, hy', ?_⟩
        intro z hz
        rcases List.mem_cons.mp hz with rfl | hz
        · exact hq
        · exact hpre z hz
      · intro ⟨pre, y, post, hl, hy, hy', hpre⟩
        cases pre with
        | nil =>
          cases hl
          exact absurd hy hp
        | cons z pre =>
          cases hl
          exact ⟨pre, y, post, rfl, hy, hy', fun z hz => hpre z (List.mem_cons_of_mem _ hz)⟩

/-! ## Loaded modules -/

def lastComponent (path : String) : String := String.ofList (path.toList.reverse.takeWhile (· ≠ '/')).reverse

def withoutExtension (name : String) : String :=
  if endsWith name ".rpx" || endsWith name ".rpl" then String.ofList (name.toList.take (name.toList.length - 4))
  else name

/-- A loaded module, as `OSDynLoad_GetRPLInfo` and as the loader report it. -/
structure LoadedModule where
  info : NotifyData
  rpl : LoadedRpl
  moduleName : rpl.moduleNameBuffer = withoutExtension (lastComponent info.name)

def LoadedModule.fileName (m : LoadedModule) : String := lastComponent m.info.name

/-- `modules` are loaded, in this order for `OSDynLoad_GetRPLInfo` and in that of `kernelModules`
for the loader. -/
structure Loaded (E : Env) (modules kernelModules : List LoadedModule) : Prop where
  rpls : E.osDynLoadRPLs = modules.map LoadedModule.info
  kernel : E.kernel.loadedRpls = kernelModules.map LoadedModule.rpl
  perm : kernelModules.Perm modules
  distinct : (modules.map LoadedModule.fileName).Nodup

/-- The module whose text section a patch by address is counted from. -/
def selected (modules : List LoadedModule) (executableName : String) : Option LoadedModule :=
  modules.find? fun m => endsWith m.info.name executableName

/-- The module whose exports a patch by name is searched in. -/
def searched (kernelModules : List LoadedModule) (executableName : String) : Option LoadedModule :=
  kernelModules.find? fun m => m.rpl.moduleNameBuffer = withoutExtension executableName

section
variable {E : Env} {modules kernelModules : List LoadedModule} {r : PatchedFunctionData} {executableName : String}

theorem endsWith_fileName (m : LoadedModule) : endsWith m.info.name m.fileName = true := by
  unfold endsWith LoadedModule.fileName lastComponent
  rw [String.toList_ofList, List.isSuffixOf_iff_suffix, ← List.reverse_prefix, List.reverse_reverse]
  exact List.takeWhile_prefix _

theorem getAddressForExecutable_selects (hE : Loaded E modules kernelModules) (hinfo : E.osDynLoadGetRPLInfo = true)
    (htype : r.type = .replaceForExecutableByAddress) (hname : r.executableName = some executableName) (a : Word) :
    getAddressForExecutable E r = .ok (some a) ↔
      ∃ m, selected modules executableName = some m ∧ a = m.info.textAddr + r.textOffset := by
  have hfind : (E.osDynLoadRPLs.find? fun rpl => endsWith rpl.name executableName) =
      (selected modules executableName).map LoadedModule.info := by
    rw [hE.rpls, List.find?_map]
    rfl
  unfold getAddressForExecutable
  rw [hname, htype]
  simp only
  by_cases hlen : E.osDynLoadRPLs.length = 0
  · rw [if_pos hlen]
    rw [List.length_eq_zero_iff] at hlen
    rw [hlen] at hfind
    cases hs : selected modules executableName with
    | none =>
      constructor
      · intro h
        cases h
      · intro ⟨m, hm, _⟩
        cases hm
    | some m =>
      rw [hs] at hfind
      cases hfind
  · rw [if_neg hlen, if_neg (by simp [hinfo]), hfind]
    cases hs : selected modules executableName with
    | none =>
      constructor
      · intro h
        cases h
      · intro ⟨m, hm, _⟩
        cases hm
    | some m =>
      constructor
      · intro h
        cases h
        exact ⟨m, rfl, rfl⟩
      · intro ⟨m', hm, ha⟩
        cases hm
        rw [ha]
        rfl

theorem kernelFindExport_eq (K : Kernel) (rplName functionName : String) :
    kernelFindExport K rplName functionName = (findExportKernel K (withoutExtension rplName) functionName).1 := by
  unfold kernelFindExport withoutExtension
  split
  · rfl
  · rfl

theorem kernelFindExport_searches (hE : Loaded E modules kernelModules) (functionName : String) :
    kernelFindExport E.kernel executableName functionName =
      if E.kernel.getRAMPID.1 = -1 then 0
      else ((searched kernelModules executableName).bind fun m => exportIn E.kernel m.rpl functionName).getD 0 := by
  rw [kernelFindExport_eq]
  unfold findExportKernel
  by_cases herr : E.kernel.getRAMPID.1 = -1
  · rw [if_pos herr]
    simp only [herr, ne_eq, not_true, if_false]
  · rw [if_neg herr]
    simp only [ne_eq, herr, not_false_eq_true, if_true]
    rw [findInRpls_eq, hE.kernel, List.find?_map, Option.bind_map]
    rfl

/-! ## The named module -/

/-- Both routes take the module of that name, and the route by address fails without one. -/
structure PicksNamed (E : Env) (r : PatchedFunctionData) (modules kernelModules : List LoadedModule)
    (executableName : String) : Prop where
  selects : ∀ m, selected modules executableName = some m →
    m.fileName = executableName ∧ searched kernelModules executableName = some m
  fails : (∀ a, getAddressForExecutable E r ≠ .ok (some a)) ↔ ∀ m ∈ modules, m.fileName ≠ executableName

/-- A module that is taken for the one of that name comes before it, or stands without it. -/
def Overtaken (takenFor : LoadedModule → Prop) (modules : List LoadedModule) (executableName : String) : Prop :=
  ∃ pre m post, modules = pre ++ m :: post ∧ takenFor m ∧ m.fileName ≠ executableName ∧
    ∀ m' ∈ pre, m'.fileName ≠ executableName

/-- The path of another module does not end in the name before the named one, and where there is a
named one, no module that differs in its extension comes before it in the loader's list. -/
def NamedFirst (modules kernelModules : List LoadedModule) (executableName : String) : Prop :=
  ¬ Overtaken (fun m => endsWith m.info.name executableName = true) modules executableName ∧
  ((∃ m ∈ modules, m.fileName = executableName) →
    ¬ Overtaken (fun m => withoutExtension m.fileName = withoutExtension executableName) kernelModules executableName)

theorem find?_eq_named_iff {takenFor : LoadedModule → Bool} (h : ∀ m, m.fileName = executableName → takenFor m = true)
    (ms : List LoadedModule) : ms.find? takenFor = ms.find? (fun m => m.fileName = executableName) ↔
      ¬ Overtaken (fun m => takenFor m = true) ms executableName := by
  rw [find?_eq_find?_iff (fun m hm => h m (by simpa using hm))]
  simp only [decide_eq_false_iff_not]
  rfl

theorem selected_eq_named_iff : selected modules executableName = modules.find? (fun m => m.fileName = executableName) ↔
    ¬ Overtaken (fun m => endsWith m.info.name executableName = true) modules executableName :=
  find?_eq_named_iff (fun m hm => hm ▸ endsWith_fileName m) modules

theorem searched_eq_named_iff :
    searched kernelModules executableName = kernelModules.find? (fun m => m.fileName = executableName) ↔
    ¬ Overtaken (fun m => withoutExtension m.fileName = withoutExtension executableName) kernelModules
      executableName := by
  have hname : (fun m : LoadedModule => withoutExtension m.fileName = withoutExtension executableName) =
      fun m => decide (m.rpl.moduleNameBuffer = withoutExtension executableName) = true := by
    funext m
    rw [decide_eq_true_eq, m.moduleName]
    rfl
  rw [hname]
  apply find?_eq_named_iff
  intro m hm
  rw [decide_eq_true_eq, m.moduleName, ← hm]
  rfl

theorem named_unique (hE : Loaded E modules kernelModules) {m m' : LoadedModule} (hm : m ∈ modules)
    (hm' : m' ∈ modules) (h : m.fileName = m'.fileName) : m = m' :=
  List.inj_on_of_nodup_map hE.distinct hm hm' h

theorem named_none_iff {ms : List LoadedModule} : ms.find? (fun m => m.fileName = executableName) = none ↔
    ∀ m ∈ ms, m.fileName ≠ executableName := by
  rw [List.find?_eq_none]
  simp only [decide_eq_true_eq, ne_eq]

theorem named_some {ms : List LoadedModule} {m : LoadedModule}
    (h : ms.find? (fun m => m.fileName = executableName) = some m) : m ∈ ms ∧ m.fileName = executableName :=
  ⟨List.mem_of_find?_eq_some h, by simpa using List.find?_some h⟩

theorem named_find (hE : Loaded E modules kernelModules) {m : LoadedModule} (hm : m ∈ modules)
    (hx : m.fileName = executableName) : modules.find? (fun m => m.fileName = executableName) = some m := by
  cases hs : modules.find? (fun m => m.fileName = executableName) with
  | none => exact absurd hx (named_none_iff.mp hs m hm)
  | some m' =>
    obtain ⟨hm', hx'⟩ := named_some hs
    rw [named_unique hE hm' hm (hx'.trans hx.symm)]

theorem named_eq (hE : Loaded E modules kernelModules) : kernelModules.find? (fun m => m.fileName = executableName) =
    modules.find? (fun m => m.fileName = executableName) := by
  cases hk : kernelModules.find? (fun m => m.fileName = executableName) with
  | none =>
    rw [named_none_iff] at hk
    exact (named_none_iff.mpr fun m hm => hk m (hE.perm.mem_iff.mpr hm)).symm
  | some m =>
    obtain ⟨hm, hx⟩ := named_some hk
    exact (named_find hE (hE.perm.mem_iff.mp hm) hx).symm

theorem fails_iff (hE : Loaded E modules kernelModules) (hinfo : E.osDynLoadGetRPLInfo = true)
    (htype : r.type = .replaceForExecutableByAddress) (hname : r.executableName = some executableName) :
    (∀ a, getAddressForExecutable E r ≠ .ok (some a)) ↔ selected modules executableName = none := by
  have hsel := getAddressForExecutable_selects hE hinfo htype hname
  constructor
  · intro h
    cases hs : selected modules executableName with
    | none => rfl
    | some m => exact absurd ((hsel _).mpr ⟨m, hs, rfl⟩) (h _)
  · intro h a ha
    obtain ⟨m, hm, _⟩ := (hsel a).mp ha
    rw [h] at hm
    cases hm

end

/-- **The named module.** `getAddressForExecutable` counts from the text of the module it selects,
`KernelFindExport` searches the module it finds, and both are the named one if and only if that one
comes first. -/
theorem picksNamed_iff {E : Env} {modules kernelModules : List LoadedModule} {r : PatchedFunctionData}
    {executableName : String} (hE : Loaded E modules kernelModules) (hinfo : E.osDynLoadGetRPLInfo = true)
    (htype : r.type = .replaceForExecutableByAddress) (hname : r.executableName = some executableName) :
    (∀ a, getAddressForExecutable E r = .ok (some a) ↔
      ∃ m, selected modules executableName = some m ∧ a = m.info.textAddr + r.textOffset) ∧
    (∀ functionName, kernelFindExport E.kernel executableName functionName =
      if E.kernel.getRAMPID.1 = -1 then 0
      else ((searched kernelModules executableName).bind fun m => exportIn E.kernel m.rpl functionName).getD 0) ∧
    (PicksNamed E r modules kernelModules executableName ↔ NamedFirst modules kernelModules executableName) := by
  refine ⟨getAddressForExecutable_selects hE hinfo htype hname, kernelFindExport_searches hE, ?_⟩
  unfold NamedFirst
  rw [← selected_eq_named_iff, ← searched_eq_named_iff, named_eq hE]
  constructor
  · intro h
    have hfail := (fails_iff hE hinfo htype hname).symm.trans h.fails
    constructor
    · cases hs : selected modules executableName with
      | none => exact (named_none_iff.mpr (hfail.mp hs)).symm
      | some m => exact (named_find hE (List.mem_of_find?_eq_some hs) (h.selects m hs).1).symm
    · intro ⟨m, hm, hx⟩
      cases hs : selected modules executableName with
      | none => exact absurd hx (hfail.mp hs m hm)
      | some m' =>
        obtain ⟨hx', hsearch⟩ := h.selects m' hs
        rw [hsearch, named_find hE (List.mem_of_find?_eq_some hs) hx']
  · intro ⟨hsel, hsearch⟩
    constructor
    · intro m hm
      rw [hsel] at hm
      have := named_some hm
      exact ⟨this.2, (hsearch ⟨m, this⟩).trans hm⟩
    · rw [fails_iff hE hinfo htype hname, hsel, named_none_iff]

def systemModule (name : String) (textAddr : Word) : LoadedModule where
  info := ⟨"/vol/" ++ name, textAddr⟩
  rpl :=
    { moduleNameBuffer := withoutExtension (lastComponent ("/vol/" ++ name))
      shnum := 0
      shstrndx := 0
      sectionHeader := fun _ => ⟨0, 0, 0, 0, 0⟩
      sectionAddressBuffer := fun _ => 0 }
  moduleName := by dsimp only

def uvdModules : List LoadedModule := [systemModule "nsysuvd.rpl" 0x02100000, systemModule "uvd.rpl" 0x02200000]

def uvdEnv : Env :=
  { plainEnv 0 false with
    osDynLoadRPLs := uvdModules.map LoadedModule.info
    kernel := ⟨(0, 0), uvdModules.map LoadedModule.rpl, fun _ => ⟨0, 0, 0, 0⟩, fun _ => ""⟩ }

theorem uvdEnv_loaded : Loaded uvdEnv uvdModules uvdModules where
  rpls := rfl
  kernel := rfl
  perm := .refl _
  distinct := by decide +kernel

def executablePatch (executableName : String) : PatchedFunctionData :=
  { type := .replaceForExecutableByAddress, executableName := some executableName, textOffset := 0x10 }

theorem picksNamed_iff_nsysuvd :
    PicksNamed uvdEnv (executablePatch "nsysuvd.rpl") uvdModules uvdModules "nsysuvd.rpl" ↔
      NamedFirst uvdModules uvdModules "nsysuvd.rpl" :=
  (picksNamed_iff uvdEnv_loaded rfl rfl rfl).2.2

theorem uvd_not_picksNamed : Loaded uvdEnv uvdModules uvdModules ∧ endsWith "uvd.rpl" ".rpl" = true ∧
    getAddressForExecutable uvdEnv (executablePatch "uvd.rpl") = .ok (some 0x02100010) ∧
    ¬ PicksNamed uvdEnv (executablePatch "uvd.rpl") uvdModules uvdModules "uvd.rpl" := by
  have hsel : selected uvdModules "uvd.rpl" = some (systemModule "nsysuvd.rpl" 0x02100000) :=
    List.find?_cons_of_pos (by decide +kernel)
  refine ⟨uvdEnv_loaded, by decide +kernel, ?_, fun h => ?_⟩
  · exact (getAddressForExecutable_selects uvdEnv_loaded rfl rfl rfl _).mpr ⟨_, hsel, by decide +kernel⟩
  have := (h.selects _ hsel).1
  revert this
  decide +kernel

end FunctionPatcher
