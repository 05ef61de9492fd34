import FunctionPatcher.CacheFilling

/-!
# Repeated notifications of a load

A notification of a load runs `PatchFunction` on every record. A record that is
applied is skipped by the next notification, and one that is refused is refused
again: what refuses it does not read the words that the records behind it change.
-/

namespace FunctionPatcher

open PowerPC (decode)

/-! ## What stays as it is -/

/-- Loaded modules, export tables, title information and mapping are the same in both. -/
structure SameSystem (E E' : Env) : Prop where
  osEffectiveToPhysical : E'.osEffectiveToPhysical = E.osEffectiveToPhysical
  mmu : E'.mmu = E.mmu
  osGetTitleID : E'.osGetTitleID = E.osGetTitleID
  titleInfo : E'.mcpGetTitleInfo E'.mcpOpen = E.mcpGetTitleInfo E.mcpOpen
  osDynLoadRPLs : E'.osDynLoadRPLs = E.osDynLoadRPLs
  osDynLoadGetRPLInfo : E'.osDynLoadGetRPLInfo = E.osDynLoadGetRPLInfo
  osDynLoadIsModuleLoaded : E'.osDynLoadIsModuleLoaded = E.osDynLoadIsModuleLoaded
  osDynLoadFindExport : E'.osDynLoadFindExport = E.osDynLoadFindExport
  kernel : E'.kernel = E.kernel

/-- A thread that runs has its stack in mapped memory. -/
def Env.StacksMapped (E : Env) : Prop :=
  ∀ c, E.pThread c = true → E.pThreadStack c = true → localToPhysical E (E.threadAddress c) ≠ 0

/-- No export begins with a relative branch to address 0. -/
def NoBranchToZero (E : Env) (s : State) : Prop :=
  ∀ rplHandle functionName a li, E.osDynLoadFindExport rplHandle functionName = a → a ≠ 0 →
    decode (load E s a) = .b li false false → PowerPC.branchTarget a li false ≠ 0

def WordsFrom (s t : State) : Prop := ∀ a, t.mem a = s.mem a ∨ ∃ x, t.mem a = branchTo x

theorem WordsFrom.refl (s : State) : WordsFrom s s := fun _ => .inl rfl

theorem WordsFrom.trans {s t u : State} (h₁ : WordsFrom s t) (h₂ : WordsFrom t u) : WordsFrom s u := by
  intro a
  rcases h₂ a with e | hx
  · rw [e]
    exact h₁ a
  · exact .inr hx

theorem jumpInstruction_eq (r : PatchedFunctionData) : ∃ x, jumpInstruction r = branchTo x := by
  unfold jumpInstruction
  split
  · exact ⟨_, rfl⟩
  · exact ⟨_, rfl⟩

theorem threadsWord_of_idle {E : Env} (h : ∀ c, E.pThread c = true → E.pThreadStack c = false) (mem : Word → Word)
    (physical jump : Word) : threadsWord E mem physical jump = mem physical := by
  have hd : ∀ c, decides E physical c = false := by
    intro c
    unfold decides
    cases hc : E.pThread c with
    | false => rfl
    | true =>
      rw [h c hc]
      rfl
  unfold threadsWord
  rw [List.find?_eq_none.mpr fun c _ => by rw [hd c]; exact Bool.false_ne_true]
  rfl

theorem Env.StacksMapped.writes_or_idle {E : Env} (h : E.StacksMapped) :
    E.Writes ∨ ∀ c, E.pThread c = true → E.pThreadStack c = false := by
  by_cases hc : ∃ c, E.pThread c = true ∧ E.pThreadStack c = true
  · exact .inl ⟨hc, h⟩
  · right
    intro c hp
    by_contra hs
    exact hc ⟨c, hp, by simpa using hs⟩

theorem patchFunction_words {E : Env} (hE : E.StacksMapped) {s s' : State} {p : Word} {b : Bool}
    (h : patchFunction E s p = .ok (b, s')) : WordsFrom s s' := by
  rcases patchFunction_outcomes h with ⟨_, _, rfl⟩ | ⟨_, _, _, P, calls, rfl⟩ | ⟨_, A, _, hw, rfl⟩
  · exact .refl _
  · exact .refl _
  · intro a
    show Function.update s.mem A.physical A.written a = _ ∨ ∃ x, Function.update s.mem A.physical A.written a = _
    by_cases ha : a = A.physical
    · rw [ha, Function.update_self, hw]
      rcases hE.writes_or_idle with hE | hE
      · rw [threadsWord_of_writes hE]
        exact .inr (jumpInstruction_eq _)
      · exact .inl (threadsWord_of_idle hE ..)
    · exact .inl (Function.update_of_ne ha ..)

theorem NoBranchToZero.followBranch {E : Env} {s t : State} (h : NoBranchToZero E s) (ht : WordsFrom s t)
    {rplHandle a : Word} {functionName : String} (ha : E.osDynLoadFindExport rplHandle functionName = a) (h0 : a ≠ 0) :
    followBranch a (load E t a) ≠ 0 := by
  have hw : load E t a = load E s a ∨ ∃ x, load E t a = branchTo x := ht (E.mmu a)
  rcases hw with e | ⟨x, e⟩
  · rw [e]
    by_cases hb : ∃ li, decode (load E s a) = .b li false false
    · obtain ⟨li, hli⟩ := hb
      rw [followBranch_of_relative hli]
      exact h rplHandle functionName a li ha h0 hli
    · rw [followBranch_of_not_relative fun li hli => hb ⟨li, hli⟩]
      exact h0
  · rw [e, followBranch_branchTo]
    exact h0

/-! ## Refusals -/

def Answers (E : Env) (r : PatchedFunctionData) (b : Bool) : Prop :=
  ∀ s, ∃ calls, shouldBePatched E s r = .ok (b, { s with mcpCalls := calls })

/-- Why `PatchFunction` leaves an unpatched record as it is. -/
inductive Refused (E : Env) (P : FunctionAddressProvider) (r : PatchedFunctionData) : Prop
  | notWanted : Answers E r false → Refused E P r
  | notLoaded : Answers E r true → r.isForExecutable = true → getAddressForExecutable E r = .ok none → Refused E P r
  | notExported (library : FunctionReplacementLibraryType) (functionName : String) : Answers E r true →
      r.isForExecutable = false → r.library = some library → library ≠ .other → r.functionName = some functionName →
      exportAddress E P library functionName = none → filled E P library = P → Refused E P r

section
variable {E E' : Env} {P : FunctionAddressProvider} {s s' t : State} {r : PatchedFunctionData} {p : Word}
  {b : Bool}

theorem SameSystem.refl (E : Env) : SameSystem E E := ⟨rfl, rfl, rfl, rfl, rfl, rfl, rfl, rfl, rfl⟩

theorem SameSystem.answers (hsame : SameSystem E E') (h : shouldBePatched E s r = .ok (b, s')) : Answers E' r b := by
  intro t
  unfold shouldBePatched at h ⊢
  simp only [hsame.osGetTitleID, hsame.titleInfo]
  split at h
  · rename_i hx
    rw [if_pos hx]
    simp only at h ⊢
    split at h
    · rename_i ht
      rw [if_pos ht]
      cases h
      exact ⟨_, rfl⟩
    · rename_i ht
      rw [if_neg ht]
      split at h
      · cases h
      · cases h
        exact ⟨_, rfl⟩
  · rename_i hx
    rw [if_neg hx]
    cases h
    exact ⟨_, rfl⟩

theorem SameSystem.refused (hsame : SameSystem E E') (h : Refused E P r) : Refused E' P r := by
  have hanswers : ∀ b, Answers E r b → Answers E' r b := by
    intro b hb t
    obtain ⟨_, hb⟩ := hb t
    exact hsame.answers hb t
  have hhandle : ∀ library, rplHandleOf E' P library = rplHandleOf E P library := by
    intro library
    unfold rplHandleOf
    rw [hsame.osDynLoadIsModuleLoaded]
  cases h with
  | notWanted h => exact .notWanted (hanswers _ h)
  | notLoaded h hx hnone =>
    apply Refused.notLoaded (hanswers _ h) hx
    rw [← hnone]
    unfold getAddressForExecutable
    rw [hsame.osDynLoadRPLs, hsame.osDynLoadGetRPLInfo, hsame.kernel]
  | notExported library functionName h hx hlib hne hname hnone hfilled =>
    apply Refused.notExported library functionName (hanswers _ h) hx hlib hne hname
    · rw [← hnone]
      unfold exportAddress
      rw [hhandle, hsame.osDynLoadFindExport]
    · refine Eq.trans ?_ hfilled
      rw [← rplHandleOf_filled, ← rplHandleOf_filled, hhandle]

theorem Refused.filled (hE : E.StoresOnSuccess) (h : Refused E P r) (library : FunctionReplacementLibraryType) :
    Refused E (filled E P library) r := by
  cases h with
  | notWanted h => exact .notWanted h
  | notLoaded h hx hnone => exact .notLoaded h hx hnone
  | notExported library' functionName h hx hlib hne hname hnone hfilled =>
    apply Refused.notExported library' functionName h hx hlib hne hname
    · rw [exportAddress_filled hE, hnone]
    · rw [filled_comm, hfilled]

/-- A refused record is refused whatever the memory holds, and nothing changes. -/
theorem Refused.patchFunction (h : Refused E t.gFunctionAddressProvider (t.objects p))
    (hun : (t.objects p).isPatched = false) :
    ∃ calls, patchFunction E t p = .ok (false, { t with mcpCalls := calls }) := by
  unfold FunctionPatcher.patchFunction
  rw [if_neg (by rw [hun]; exact Bool.false_ne_true)]
  cases h with
  | notWanted h =>
    obtain ⟨calls, h⟩ := h t
    rw [h]
    exact ⟨calls, rfl⟩
  | notLoaded h hx hnone =>
    obtain ⟨calls, h⟩ := h t
    rw [h]
    refine ⟨calls, ?_⟩
    unfold updateFunctionAddresses
    simp only [hx, hnone, if_true]
  | notExported library functionName h hx hlib hne hname hnone hfilled =>
    obtain ⟨calls, h⟩ := h t
    rw [h]
    refine ⟨calls, ?_⟩
    have haddress := getEffectiveAddressOfFunction_address E { t with mcpCalls := calls } library functionName
    rw [hnone] at haddress
    have hprovider := getEffectiveAddressOfFunction_provider (E := E) { t with mcpCalls := calls } library functionName
    rw [rplHandleOf_filled, hfilled] at hprovider
    have heff : getEffectiveAddressOfFunction E { t with mcpCalls := calls } library functionName =
        (0, t.gFunctionAddressProvider) := Prod.ext haddress hprovider
    have hupdate := updateFunctionAddresses_byLibrary (E := E) (s := { t with mcpCalls := calls }) (p := p) hx hlib hne
    simp only [hname, heff, if_true] at hupdate
    simp only [hupdate]

theorem exportAddress_eq_none (hs : ∀ rplHandle functionName a,
      E.osDynLoadFindExport rplHandle functionName = a → a ≠ 0 → followBranch a (load E s a) ≠ 0)
    {library : FunctionReplacementLibraryType} {functionName : String}
    (h0 : (getEffectiveAddressOfFunction E s library functionName).1 = 0) :
    exportAddress E s.gFunctionAddressProvider library functionName = none := by
  rw [getEffectiveAddressOfFunction_address] at h0
  cases ha : exportAddress E s.gFunctionAddressProvider library functionName with
  | none => rfl
  | some a =>
    simp only [ha, Option.map_some, Option.getD_some] at h0
    obtain ⟨rplHandle, hfind, ha0⟩ := exportAddress_some ha
    exact absurd h0 (hs rplHandle functionName a hfind ha0)

theorem refused_of_updateFunctionAddresses (hE : E.StoresOnSuccess) (hs : ∀ rplHandle functionName a,
      E.osDynLoadFindExport rplHandle functionName = a → a ≠ 0 → followBranch a (load E s a) ≠ 0)
    (hanswer : Answers E (s.objects p) true) (h : updateFunctionAddresses E s p = .ok (false, s')) :
    s'.objects = s.objects ∧ Refused E s'.gFunctionAddressProvider (s.objects p) := by
  unfold updateFunctionAddresses at h
  simp only at h
  split at h
  · rename_i hx
    split at h
    · cases h
    · rename_i hnone
      cases h
      exact ⟨rfl, .notLoaded hanswer hx hnone⟩
    · obtain ⟨hb, _⟩ := storeFunctionAddresses_ok h
      cases hb
  · rename_i hx
    split at h
    · cases h
    · cases h
    · rename_i library hne hlib
      split at h
      · cases h
      · rename_i functionName hname
        split at h
        · rename_i h0
          cases h
          have hnone := exportAddress_eq_none hs h0
          refine ⟨rfl, .notExported library functionName hanswer (by simpa using hx) hlib (fun e => ?_) hname ?_ ?_⟩
          · exact hne (by rw [e])
          · rw [getEffectiveAddressOfFunction_provider, rplHandleOf_filled, exportAddress_filled hE]
            exact hnone
          · rw [getEffectiveAddressOfFunction_provider, rplHandleOf_filled]
            exact filled_filled E _ library
        · obtain ⟨hb, _⟩ := storeFunctionAddresses_ok h
          cases hb

theorem refused_of_patchFunction (hE : E.StoresOnSuccess) (hs : ∀ rplHandle functionName a,
      E.osDynLoadFindExport rplHandle functionName = a → a ≠ 0 → followBranch a (load E s a) ≠ 0)
    (hun : (s.objects p).isPatched = false) (h : FunctionPatcher.patchFunction E s p = .ok (false, s')) :
    s'.objects = s.objects ∧ Refused E s'.gFunctionAddressProvider (s.objects p) := by
  rcases patchFunction_branches h with ⟨hp, _⟩ | ⟨_, _, h₁⟩ | ⟨_, _, s₁, h₁, h₂⟩ | ⟨_, s₁, s₂, _, _, h⟩
  · rw [hun] at hp
    cases hp
  · have hanswer := (SameSystem.refl E).answers h₁
    obtain ⟨calls, rfl⟩ := shouldBePatched_ok h₁
    exact ⟨rfl, .notWanted hanswer⟩
  · have hanswer := (SameSystem.refl E).answers h₁
    obtain ⟨calls, rfl⟩ := shouldBePatched_ok h₁
    exact refused_of_updateFunctionAddresses (s := { s with mcpCalls := calls }) hE hs hanswer h₂
  · obtain ⟨hb, _⟩ := applyPatch_ok h
    cases hb

/-! ## One pass -/

/-- A pass over the list is through with the record. -/
def Settled (E : Env) (s : State) (p : Word) : Prop :=
  (s.objects p).isPatched = true ∨
    ((s.objects p).isPatched = false ∧ Refused E s.gFunctionAddressProvider (s.objects p))

theorem patchFunction_settled (hr : E.StoresOnSuccess) (hs : ∀ rplHandle functionName a,
      E.osDynLoadFindExport rplHandle functionName = a → a ≠ 0 → followBranch a (load E s a) ≠ 0)
    (h : FunctionPatcher.patchFunction E s p = .ok (b, s')) : Settled E s' p := by
  rcases patchFunction_ok h with ⟨hp, _, rfl⟩ | ⟨hun, rfl, _⟩ | ⟨_, A, _, rfl⟩
  · exact .inl hp
  · obtain ⟨ho, hrefused⟩ := refused_of_patchFunction hr hs hun h
    right
    rw [ho]
    exact ⟨hun, hrefused⟩
  · left
    rw [A.result_objects_self]
    rfl

/-- **Step lemma.** A record that is settled stays so while others are tried. -/
theorem Settled.patchFunction (hr : E.StoresOnSuccess) {q : Word} (hq : Settled E s q)
    (h : FunctionPatcher.patchFunction E s p = .ok (b, s')) : Settled E s' q := by
  by_cases hqp : q = p
  · subst hqp
    rcases hq with hp | ⟨hun, hrefused⟩
    · rcases patchFunction_ok h with ⟨_, _, rfl⟩ | ⟨hun, _⟩ | ⟨_, A, hA, _⟩
      · exact .inl hp
      · rw [hp] at hun
        cases hun
      · have hun := hA.unpatched
        rw [hp] at hun
        cases hun
    · obtain ⟨calls, e⟩ := hrefused.patchFunction hun
      rw [h] at e
      cases e
      exact .inr ⟨hun, hrefused⟩
  · have ho : s'.objects q = s.objects q := by
      rcases patchFunction_ok h with ⟨_, _, rfl⟩ | ⟨_, _, P, calls, rfl⟩ | ⟨_, A, _, rfl⟩
      · rfl
      · rfl
      · exact A.result_objects_ne E s hqp
    unfold Settled
    rw [ho]
    rcases hq with hp | ⟨hun, hrefused⟩
    · exact .inl hp
    · right
      refine ⟨hun, ?_⟩
      rcases patchFunction_provider h with e | ⟨library, e⟩
      · rw [e]
        exact hrefused
      · rw [e, rplHandleOf_filled]
        exact hrefused.filled hr library

theorem forEach_words (hm : E.StacksMapped) {ps : List Word}
    (h : forEach (FunctionPatcher.patchFunction E) s ps = .ok s') : WordsFrom s s' :=
  forEach_induct (WordsFrom s) (fun _ _ _ _ _ ht h => ht.trans (patchFunction_words hm h)) (.refl s) h

theorem forEach_keeps_settled (hr : E.StoresOnSuccess) {q : Word} (hq : Settled E s q) {ps : List Word}
    (h : forEach (FunctionPatcher.patchFunction E) s ps = .ok s') : Settled E s' q :=
  forEach_induct (fun t => Settled E t q) (fun _ _ _ _ _ ht h => ht.patchFunction hr h) hq h

theorem forEach_settles (hr : E.StoresOnSuccess) (hm : E.StacksMapped) (hb : NoBranchToZero E s) {ps : List Word}
    (h : forEach (FunctionPatcher.patchFunction E) s ps = .ok s') : ∀ q ∈ ps, Settled E s' q := by
  intro q hq
  obtain ⟨pre, post, t, b, t', _, hpre, hq, hpost⟩ := forEach_visits h hq
  have ht := forEach_words hm hpre
  have hsettled : Settled E t' q :=
    patchFunction_settled hr (fun _ _ _ ha h0 => hb.followBranch ht ha h0) hq
  exact forEach_keeps_settled hr hsettled hpost

theorem Settled.again (hsame : SameSystem E E') (h : Settled E t p) :
    ∃ b calls, FunctionPatcher.patchFunction E' t p = .ok (b, { t with mcpCalls := calls }) := by
  rcases h with hp | ⟨hun, hrefused⟩
  · refine ⟨true, t.mcpCalls, ?_⟩
    unfold FunctionPatcher.patchFunction
    rw [if_pos hp]
  · exact ⟨false, (hsame.refused hrefused).patchFunction hun⟩

/-- A pass over settled records only asks for the title again. -/
theorem forEach_settled (hsame : SameSystem E E') {ps : List Word} (ht : ∀ q ∈ ps, Settled E t q) :
    ∃ calls, forEach (FunctionPatcher.patchFunction E') t ps = .ok { t with mcpCalls := calls } := by
  induction ps generalizing t with
  | nil => exact ⟨t.mcpCalls, rfl⟩
  | cons p ps ih =>
    obtain ⟨b, calls, hp⟩ := (ht p (List.mem_cons_self ..)).again hsame
    have ht' : ∀ q ∈ ps, Settled E { t with mcpCalls := calls } q := fun q hq => ht q (List.mem_cons_of_mem _ hq)
    obtain ⟨calls', h⟩ := ih ht'
    refine ⟨calls', ?_⟩
    rw [forEach, hp]
    exact h

end

/-- **Loaded twice.** A second notification of a load, with the system as it was at the first,
leaves the whole state as the first left it, but for the calls to the title service. Of the system it
is asked that it stores a handle only where it reports success, and that the stacks of threads that run
are mapped. -/
theorem notifyCallback_loaded_twice {E E' : Env} {s s' : State} {module module' : Word}
    (hsame : SameSystem E E') (hstores : E.StoresOnSuccess) (hmapped : E.StacksMapped) (hbranch : NoBranchToZero E s)
    (hrun : notifyCallback E s module .loaded = .ok s') :
    ∃ calls, notifyCallback E' s' module' .loaded = .ok { s' with mcpCalls := calls } := by
  have hsettled := forEach_settles hstores hmapped hbranch hrun
  have hlist : s'.gPatchedFunctions = s.gPatchedFunctions := forEach_patchFunction_list hrun
  rw [← hlist] at hsettled
  exact forEach_settled hsame hsettled

/-- One record that a load of coreinit makes applicable, and one that it does not. -/
def registeredEarly : State :=
  ran (plainState 0x7c0802a6)
    [(plainEnv 0x10 false, plainPatch .coreinit 0 0x1000 .all), (plainEnv 0x20 false, plainPatch .gx2 0 0x2000 .all)]

def loadedOnce : State := afterPass registeredEarly (notifyCallback (plainEnv 0 true) registeredEarly 0x500 .loaded)

theorem plainEnv_storesOnSuccess (p : Word) (loaded : Bool) : (plainEnv p loaded).StoresOnSuccess := by
  intro name h
  unfold plainEnv at h ⊢
  simp only at h ⊢
  split at h
  · exact absurd rfl h
  · rename_i hn
    rw [if_neg hn]
    rfl

theorem notifyCallback_loaded_twice_plain :
    ∃ calls, notifyCallback (plainEnv 0 true) loadedOnce 0x500 .loaded = .ok { loadedOnce with mcpCalls := calls } := by
  have hbranch : NoBranchToZero (plainEnv 0 true) registeredEarly := by
    intro _ _ a li ha _ hdec
    subst ha
    have : decode (load (plainEnv 0 true) registeredEarly 0x02000400) = .other 0x7c0802a6 := by decide +kernel
    rw [show (plainEnv 0 true).osDynLoadFindExport _ _ = 0x02000400 from rfl, this] at hdec
    cases hdec
  exact notifyCallback_loaded_twice (.refl _) (plainEnv_storesOnSuccess 0 true) (plainEnv_writes 0 true).mapped hbranch
    (eq_ok_afterPass (s := registeredEarly) (by decide +kernel))

end FunctionPatcher
