import FunctionPatcher.History
import FunctionPatcher.Runs

/-!
# Where every change of memory comes from

Every run has a history: a put is a call of `PatchFunction` that an event of the
run made, with its checks passed, an undo writes back what the record found, and
the memory is what these leave of the one the run began with.
-/

namespace FunctionPatcher

open History

/-! ## Runs with their events -/

/-- What a run may meet: its environments, which translate addresses alike and run a thread that writes, what
callers register, and what somebody else may make of the memory. -/
structure Setting where
  envs : Set Env
  data : Set FunctionReplacementData
  foreign : (Word → Word) → (Word → Word) → Prop
  physicalOf : Word → Word
  translates : ∀ E ∈ envs, E.osEffectiveToPhysical = physicalOf
  writes : ∀ E ∈ envs, E.Writes

/-- An event, the environment it meets and the state it begins in. -/
structure Occurrence (W : Setting) where
  state : State
  env : Env
  event : Event
  inSetting : env ∈ W.envs
  registers : ∀ d, event = .add (some d) → d ∈ W.data
  fresh : env.newObject ∉ state.gPatchedFunctions

/-- The runs from `s₀`, with their events, latest first. -/
inductive Run (W : Setting) (s₀ : State) : List (Occurrence W) → State → Prop
  | start : Run W s₀ [] s₀
  | event {past : List (Occurrence W)} {s' : State} (x : Occurrence W) : Run W s₀ past x.state →
      x.event.run x.env x.state = .ok s' → Run W s₀ (x :: past) s'
  | memory {past : List (Occurrence W)} {s : State} (mem : Word → Word) : Run W s₀ past s → W.foreign s.mem mem →
      Run W s₀ past { s with mem := mem }

/-! ## Lawful histories -/

/-- All of a record that it was registered with: the addresses only if the caller supplied them. -/
def PatchedFunctionData.asked (r : PatchedFunctionData) : PatchedFunctionData :=
  { r with
    jumpToOriginal := 0
    jumpData := 0
    jumpDataSize := 0
    realEffectiveFunctionAddress :=
      if r.isForExecutable = false ∧ r.library = some .other then r.realEffectiveFunctionAddress else 0
    realPhysicalFunctionAddress :=
      if r.isForExecutable = false ∧ r.library = some .other then r.realPhysicalFunctionAddress else 0
    replacedInstruction := 0
    replaceWithInstruction := 0
    isPatched := false }

section
variable {W : Setting}

/-- An event of the run called `PatchFunction` for `p` on the memory `mem`, which applied what somebody had
registered. The record became `r`. -/
def AppliedOn (past : List (Occurrence W)) (mem : Word → Word) (p : Word) (r : PatchedFunctionData) : Prop :=
  ∃ x ∈ past, ∃ (t : State) (A : Application), x.event.Patches x.env x.state t p ∧ A.Valid x.env t p ∧
    t.mem = mem ∧ r = A.record t p ∧ ∃ d ∈ W.data, (t.objects p).asked = (recordOf d).asked

/-- An event of the run called `RestoreFunction` for the record `r` of `p` on the memory `mem`, and its jump was
still in place. -/
def RestoredOn (past : List (Occurrence W)) (mem : Word → Word) (p : Word) (r : PatchedFunctionData) : Prop :=
  ∃ x ∈ past, ∃ t : State, x.event.Restores x.env x.state t p ∧ Restorable x.env t p ∧ t.mem = mem ∧ t.objects p = r

/-- What is done to memory, the records by their addresses. -/
abbrev PatchDeed := Deed Word PatchedFunctionData Word Word

/-- The histories of the module on a memory that began as `m`. -/
inductive Lawful (past : List (Occurrence W)) (m : Word → Word) : List PatchDeed → Prop
  | nil : Lawful past m []
  | put {ds : List PatchDeed} {p : Word} {r : PatchedFunctionData} : Lawful past m ds → standing p ds = none →
      AppliedOn past (replay m ds) p r →
      Lawful past m (.put p r r.realPhysicalFunctionAddress r.replaceWithInstruction :: ds)
  /-- The record stands, and the word it found is written back where it found it. -/
  | undo {ds : List PatchDeed} {p : Word} {r : PatchedFunctionData} : Lawful past m ds → standing p ds = some r →
      RestoredOn past (replay m ds) p r →
      Lawful past m (.undo p r.realPhysicalFunctionAddress r.replacedInstruction :: ds)
  | forget {ds : List PatchDeed} {p : Word} (r : PatchedFunctionData) : Lawful past m ds → standing p ds = some r →
      Lawful past m (.forget p :: ds)
  | foreign {ds : List PatchDeed} (m' : Word → Word) : Lawful past m ds → W.foreign (replay m ds) m' →
      Lawful past m (.foreign m' :: ds)

end

/-- The record of `p`, if it is among `live` and patched. -/
def patchedRecord (live : List Word) (s : State) (p : Word) : Option PatchedFunctionData :=
  if p ∈ live ∧ (s.objects p).isPatched = true then some (s.objects p) else none

/-- The records among `live` are registered ones, and a history accounts for the memory and for those
that are patched. -/
structure Explained {W : Setting} (past : List (Occurrence W)) (m : Word → Word) (live : List Word) (s : State) :
    Prop where
  history : ∃ ds, Lawful past m ds ∧ replay m ds = s.mem ∧ ∀ p, standing p ds = patchedRecord live s p
  registered : ∀ p ∈ live, ∃ d ∈ W.data, (s.objects p).asked = (recordOf d).asked

section
variable {W : Setting} {past past' : List (Occurrence W)} {m mem : Word → Word} {live live' ps : List Word} {E : Env}
  {s s' : State} {p h a w : Word} {b : Bool} {r : PatchedFunctionData} {ds below : List PatchDeed} {x : Occurrence W}

theorem patchedRecord_congr (hlive : p ∈ live' ↔ p ∈ live) (ho : s'.objects p = s.objects p) :
    patchedRecord live' s' p = patchedRecord live s p := by
  unfold patchedRecord
  simp only [ho, hlive]

theorem patchedRecord_of_unpatched (h : (s.objects p).isPatched = false) : patchedRecord live s p = none := by
  simp [patchedRecord, h]

theorem patchedRecord_of_patched (hp : p ∈ live) (h : (s.objects p).isPatched = true) :
    patchedRecord live s p = some (s.objects p) := if_pos ⟨hp, h⟩

theorem asked_record {A : Application} (hA : A.Valid E s p) : (A.record s p).asked = (s.objects p).asked := by
  have hx : (A.record s p).isForExecutable = (s.objects p).isForExecutable := rfl
  have hl : (A.record s p).library = (s.objects p).library := rfl
  unfold PatchedFunctionData.asked
  rw [hx, hl]
  rcases hA.resolves with ⟨hx, hl, he, hp⟩ | ⟨h, _⟩
  · simp only [hx, hl, and_self, if_true, ← he, ← hp]
    rfl
  · have hno : ¬ ((s.objects p).isForExecutable = false ∧ (s.objects p).library = some .other) := by
      rintro ⟨hx, hl⟩
      exact h.elim (fun h => by simp [hx] at h) (fun h => h hl)
    simp only [if_neg hno]
    rfl

/-! ## What a history says -/

theorem Lawful.suffix (h : Lawful past m ds) (hsuf : below <:+ ds) : Lawful past m below := by
  induction h with
  | nil =>
    rw [List.suffix_nil.mp hsuf]
    exact .nil
  | put h hst happlied ih =>
    rcases List.suffix_cons_iff.mp hsuf with rfl | hsuf
    · exact .put h hst happlied
    · exact ih hsuf
  | undo h hst hrestored ih =>
    rcases List.suffix_cons_iff.mp hsuf with rfl | hsuf
    · exact .undo h hst hrestored
    · exact ih hsuf
  | forget r h hst ih =>
    rcases List.suffix_cons_iff.mp hsuf with rfl | hsuf
    · exact .forget r h hst
    · exact ih hsuf
  | foreign m' h hm' ih =>
    rcases List.suffix_cons_iff.mp hsuf with rfl | hsuf
    · exact .foreign m' h hm'
    · exact ih hsuf

theorem Lawful.mono (h : Lawful past m ds) (hpast : past ⊆ past') : Lawful past' m ds := by
  induction h with
  | nil => exact .nil
  | put _ hst happlied ih =>
    obtain ⟨x, hx, happlied⟩ := happlied
    exact .put ih hst ⟨x, hpast hx, happlied⟩
  | undo _ hst hrestored ih =>
    obtain ⟨x, hx, hrestored⟩ := hrestored
    exact .undo ih hst ⟨x, hpast hx, hrestored⟩
  | forget r _ hst ih => exact .forget r ih hst
  | foreign m' _ hm' ih => exact .foreign m' ih hm'

theorem Lawful.applied (h : Lawful past m ds) (hsuf : .put p r a w :: below <:+ ds) :
    a = r.realPhysicalFunctionAddress ∧ w = r.replaceWithInstruction ∧ AppliedOn past (replay m below) p r := by
  cases h.suffix hsuf with
  | put _ _ happlied => exact ⟨rfl, rfl, happlied⟩

/-- A record that stands was applied. -/
theorem Lawful.standing_applied (h : Lawful past m ds) (hst : standing p ds = some r) :
    ∃ above below, ds = above ++ .put p r r.realPhysicalFunctionAddress r.replaceWithInstruction :: below ∧
      (∀ d ∈ above, d.about ≠ some p) ∧ AppliedOn past (replay m below) p r := by
  obtain ⟨above, a, w, below, rfl, habove⟩ := standing_eq_some hst
  obtain ⟨rfl, rfl, happlied⟩ := h.applied (List.suffix_append _ _)
  exact ⟨above, below, rfl, habove, happlied⟩

/-- A word is written back where the record found it. -/
theorem AppliedOn.target (h : AppliedOn past mem p r) (hE : E ∈ W.envs) :
    targetAddrPhys E r = r.realPhysicalFunctionAddress := by
  obtain ⟨x, _, t, A, _, hA, _, rfl, _⟩ := h
  unfold targetAddrPhys
  split
  · rename_i hlib
    rcases hA.resolves with ⟨_, h, _⟩ | ⟨_, h, _⟩
    · exact absurd h hlib
    · rw [W.translates E hE, ← W.translates x.env x.inSetting]
      exact h.symm
  · rfl

theorem AppliedOn.found (h : AppliedOn past mem p r) : r.replacedInstruction = mem r.realPhysicalFunctionAddress := by
  obtain ⟨x, _, t, A, _, _, rfl, rfl, _⟩ := h
  rfl

/-- What is written back is what the record found when it was applied. -/
theorem Lawful.undo_at_put (h : Lawful past m ds) (hsuf : .undo p a w :: below <:+ ds) :
    ∃ r below', .put p r a r.replaceWithInstruction :: below' <:+ below ∧ AppliedOn past (replay m below') p r ∧
      w = replay m below' a ∧ RestoredOn past (replay m below) p r := by
  cases h.suffix hsuf with
  | undo hbelow hst hrestored =>
    obtain ⟨above, below', hds, _, happlied⟩ := hbelow.standing_applied hst
    refine ⟨_, below', ?_, happlied, happlied.found, hrestored⟩
    rw [hds]
    exact List.suffix_append _ _

theorem Lawful.footprint (h : Lawful past m ds) (hne : replay m ds a ≠ m a) :
    (∃ m' below, .foreign m' :: below <:+ ds ∧ m' a ≠ replay m below a) ∨
      ∃ p r below, .put p r a r.replaceWithInstruction :: below <:+ ds ∧ AppliedOn past (replay m below) p r := by
  obtain ⟨d, below, hsuf, ⟨p, r, w, rfl⟩ | ⟨p, w, rfl⟩ | ⟨m', rfl, hm'⟩⟩ := exists_deed_of_ne hne
  · obtain ⟨_, rfl, happlied⟩ := h.applied hsuf
    exact .inr ⟨p, r, below, hsuf, happlied⟩
  · obtain ⟨r, below', hput, happlied, _⟩ := h.undo_at_put hsuf
    exact .inr ⟨p, r, below', hput.trans ((List.suffix_cons _ _).trans hsuf), happlied⟩
  · exact .inl ⟨m', below, hsuf, hm'⟩

/-! ## One record -/

theorem Explained.mono (hs : Explained past m live s) (hpast : past ⊆ past') : Explained past' m live s := by
  obtain ⟨ds, hlaw, hmem, hst⟩ := hs.history
  exact ⟨⟨ds, hlaw.mono hpast, hmem, hst⟩, hs.registered⟩

theorem Explained.same (hs : Explained past m live s) (hm : s'.mem = s.mem) (ho : s'.objects = s.objects)
    (hlive : ∀ p, p ∈ live' ↔ p ∈ live) : Explained past m live' s' := by
  obtain ⟨ds, hlaw, hmem, hst⟩ := hs.history
  refine ⟨⟨ds, hlaw, hmem.trans hm.symm, fun p => ?_⟩, fun p hp => ?_⟩
  · rw [hst, patchedRecord_congr (hlive p) (congrFun ho p)]
  · rw [ho]
    exact hs.registered p ((hlive p).mp hp)

theorem Explained.patchFunction (hs : Explained past m live s) (hx : x ∈ past)
    (hcall : x.event.Patches x.env x.state s p) (hp : p ∈ live) (hrun : patchFunction x.env s p = .ok (b, s')) :
    Explained past m live s' := by
  rcases patchFunction_ok hrun with ⟨_, _, rfl⟩ | ⟨_, _, P, calls, rfl⟩ | ⟨_, A, hA, rfl⟩
  · exact hs
  · exact hs.same rfl rfl fun _ => .rfl
  have hself := A.result_objects_self x.env s p
  obtain ⟨ds, hlaw, hmem, hst⟩ := hs.history
  obtain ⟨d, hd, hasked⟩ := hs.registered p hp
  have hnone : standing p ds = none := by rw [hst, patchedRecord_of_unpatched hA.unpatched]
  have happlied : AppliedOn past (replay m ds) p (A.record s p) :=
    ⟨x, hx, s, A, hcall, hA, hmem.symm, rfl, d, hd, hasked⟩
  refine ⟨⟨_, .put hlaw hnone happlied, ?_, ?_⟩, ?_⟩
  · have hw : A.written = (A.record s p).replaceWithInstruction := hA.written (W.writes x.env x.inSetting)
    rw [replay, hmem, ← hw]
    rfl
  · intro q
    by_cases hq : p = q
    · subst hq
      rw [patchedRecord_of_patched hp (by rw [hself]; rfl), hself]
      simp [standing]
    · rw [patchedRecord_congr .rfl (A.result_objects_ne x.env s (Ne.symm hq)), ← hst q]
      simp [standing, hq]
  · intro q hq
    by_cases hqp : q = p
    · subst hqp
      rw [hself, asked_record hA]
      exact ⟨d, hd, hasked⟩
    · rw [A.result_objects_ne x.env s hqp]
      exact hs.registered q hq

theorem Explained.restoreFunction (hs : Explained past m live s) (hx : x ∈ past)
    (hcall : x.event.Restores x.env x.state s p) (hp : p ∈ live) (hrun : restoreFunction x.env s p = .ok (b, s')) :
    Explained past m live s' := by
  rcases restoreFunction_ok hrun with ⟨_, _, rfl⟩ | ⟨_, _, _, rfl⟩ | ⟨hr, _, rfl⟩
  · exact hs
  · exact hs
  have hself : (restored x.env s p).objects p = { s.objects p with isPatched := false } := setObject_objects_self ..
  have hother : ∀ q, q ≠ p → (restored x.env s p).objects q = s.objects q := fun q hq => setObject_objects_ne _ _ _ hq
  obtain ⟨ds, hlaw, hmem, hst⟩ := hs.history
  have hstands : standing p ds = some (s.objects p) := by rw [hst, patchedRecord_of_patched hp hr.patched]
  obtain ⟨_, _, _, _, happlied⟩ := hlaw.standing_applied hstands
  have hrestored : RestoredOn past (replay m ds) p (s.objects p) := ⟨x, hx, s, hcall, hr, hmem.symm, rfl⟩
  refine ⟨⟨_, .undo hlaw hstands hrestored, ?_, ?_⟩, ?_⟩
  · rw [replay, hmem, ← happlied.target x.inSetting]
    rfl
  · intro q
    by_cases hq : p = q
    · subst hq
      rw [patchedRecord_of_unpatched (by rw [hself])]
      simp [standing]
    · rw [patchedRecord_congr .rfl (hother q (Ne.symm hq)), ← hst q]
      simp [standing, hq]
  · intro q hq
    by_cases hqp : q = p
    · subst hqp
      rw [hself]
      exact hs.registered q hq
    · rw [hother q hqp]
      exact hs.registered q hq

/-! ## Records that are given up -/

/-- A history that forgets the records `q` of a list with `Gone q`. -/
theorem Lawful.forgets (Gone : Word → Prop) [DecidablePred Gone] {ds : List PatchDeed} (hlaw : Lawful past m ds)
    (qs : List Word) : ∃ ds', Lawful past m ds' ∧ replay m ds' = replay m ds ∧
      ∀ p, standing p ds' = if p ∈ qs ∧ Gone p then none else standing p ds := by
  induction qs with
  | nil => exact ⟨ds, hlaw, rfl, by simp⟩
  | cons q qs ih =>
    obtain ⟨ds', hlaw', hmem, hst⟩ := ih
    by_cases hq : Gone q
    · cases hr : standing q ds' with
      | none =>
        refine ⟨ds', hlaw', hmem, ?_⟩
        intro p
        by_cases hp : p = q
        · subst hp
          simp [hr, hq]
        · simp [hst, hp]
      | some r =>
        refine ⟨.forget q :: ds', hlaw'.forget r hr, hmem, ?_⟩
        intro p
        by_cases hp : q = p
        · subst hp
          simp [standing, hq]
        · simp [standing, hst, hp, Ne.symm hp]
    · refine ⟨ds', hlaw', hmem, ?_⟩
      intro p
      by_cases hp : p = q
      · subst hp
        simp [hst, hq]
      · simp [hst, hp]

theorem Explained.giveUp (hs : Explained past m live s) (hm : s'.mem = s.mem)
    (hr : ∀ p, patchedRecord live' s' p = patchedRecord live s p ∨ patchedRecord live' s' p = none)
    (hlive : ∀ p ∈ live', p ∈ live ∧ (s'.objects p).asked = (s.objects p).asked) : Explained past m live' s' := by
  classical
  obtain ⟨ds, hlaw, hmem, hst⟩ := hs.history
  obtain ⟨ds', hlaw', hmem', hst'⟩ := hlaw.forgets (fun p => patchedRecord live' s' p = none) live
  refine ⟨⟨ds', hlaw', hmem'.trans (hmem.trans hm.symm), ?_⟩, ?_⟩
  · intro p
    rw [hst', hst]
    by_cases hnone : patchedRecord live' s' p = none
    · by_cases hp : p ∈ live
      · simp [hp, hnone]
      · rw [hnone, if_neg fun h => hp h.1]
        exact if_neg fun h => hp h.1
    · rw [if_neg fun h => hnone h.2]
      exact ((hr p).resolve_right hnone).symm
  · intro p hp
    rw [(hlive p hp).2]
    exact hs.registered p (hlive p hp).1

theorem Explained.cleared (hs : Explained past m live s) (hc : Cleared s s') : Explained past m live s' := by
  obtain ⟨o, rfl, ho⟩ := hc
  refine hs.giveUp rfl ?_ ?_
  · intro p
    rcases ho p with h | h
    · exact .inl (patchedRecord_congr .rfl h)
    · exact .inr (patchedRecord_of_unpatched (congrArg PatchedFunctionData.isPatched h))
  · intro p hp
    refine ⟨hp, ?_⟩
    show (o p).asked = (s.objects p).asked
    rcases ho p with h | h
    · rw [h]
    · rw [h]
      rfl

/-- The record leaves the list and is destroyed, whether it is patched or not. -/
theorem Explained.drop {pre post : List Word} (hs : Explained past m (pre ++ h :: post) s)
    (hout : h ∉ pre ++ post) : Explained past m (pre ++ post) (destroy s h) := by
  have hne : ∀ q ∈ pre ++ post, q ≠ h := fun q hq e => hout (e ▸ hq)
  refine hs.giveUp (destroy_frame s h).mem_eq ?_ ?_
  · intro q
    by_cases hq : q = h
    · subst hq
      exact .inr (if_neg fun hm => hout hm.1)
    · refine .inl (patchedRecord_congr ?_ ((destroy_frame s h).objects_ne hq))
      simp [hq]
  · intro q hq
    refine ⟨?_, by rw [(destroy_frame s h).objects_ne (hne q hq)]⟩
    rcases List.mem_append.mp hq with hq | hq <;> simp [hq]

/-- A record is made for `d`. It is not patched yet. -/
theorem Explained.enter {d : FunctionReplacementData} (hs : Explained past m live s) (hd : d ∈ W.data)
    (hnew : E.newObject ∉ live) (hrun : allocateDataForJumps E (constructed E s d) E.newObject = (b, s')) :
    Explained past m (live ++ [E.newObject]) s' := by
  obtain ⟨_, hm, ho, jd, jo, n, hself⟩ := allocated_spec E s d
  have hun := allocated_unpatched E s d
  rw [← eq_allocated hrun] at hm ho hself hun
  obtain ⟨ds, hlaw, hmem, hst⟩ := hs.history
  refine ⟨⟨ds, hlaw, hmem.trans hm.symm, ?_⟩, ?_⟩
  · intro q
    rw [hst]
    by_cases hq : q = E.newObject
    · subst hq
      rw [patchedRecord_of_unpatched hun]
      exact if_neg fun h => hnew h.1
    · exact (patchedRecord_congr (by simp [hq]) (ho q hq)).symm
  · intro q hq
    by_cases hqn : q = E.newObject
    · subst hqn
      rw [hself]
      exact ⟨d, hd, rfl⟩
    · rw [ho q hqn]
      exact hs.registered q ((List.mem_append.mp hq).resolve_right fun h => hqn (List.mem_singleton.mp h))

/-! ## Events -/

theorem Explained.add {fd : Option FunctionReplacementData} {res : AddResult}
    (hs : Explained past m x.state.gPatchedFunctions x.state) (hx : x ∈ past) (hev : x.event = .add fd)
    (hrun : fpAddFunctionPatch x.env x.state fd = .ok (res, s')) : Explained past m s'.gPatchedFunctions s' := by
  have hdata : ∀ d, fd = some d → d ∈ W.data := fun d hd => x.registers d (hd ▸ hev)
  rcases fpAddFunctionPatch_ok hrun with ⟨_, rfl | ⟨d, s₁, hd, ha, rfl⟩⟩ | ⟨hres, h0, d, b, s₁, s₂, rfl, ha, hp, rfl⟩
  · exact hs
  · have hs₁ := hs.enter (hdata d hd) x.fresh ha
    have hdrop := hs₁.drop (by rw [List.append_nil]; exact x.fresh)
    rw [(destroy_frame _ _).list, (allocateDataForJumps_frame ha).list]
    rwa [List.append_nil] at hdrop
  · have hcall : x.event.Patches x.env x.state s₁ x.env.newObject := by
      rw [hev]
      exact .added (fpAddFunctionPatch_version hrun hres) h0 ha
    have hs₂ := (hs.enter (hdata d rfl) x.fresh ha).patchFunction hx hcall (by simp) hp
    refine hs₂.same rfl rfl fun q => ?_
    have hl : s₂.gPatchedFunctions = x.state.gPatchedFunctions :=
      (patchFunction_list hp).trans (allocateDataForJumps_frame ha).list
    simp [publishPatch, hl]

theorem Explained.remove {st : FunctionPatcherStatus} (hs : Explained past m x.state.gPatchedFunctions x.state)
    (hx : x ∈ past) (hev : x.event = .remove h) (hn : x.state.gPatchedFunctions.Nodup)
    (hrun : fpRemoveFunctionPatch x.env x.state h = .ok (st, s')) : Explained past m s'.gPatchedFunctions s' := by
  by_cases hm : h ∈ x.state.gPatchedFunctions
  · obtain ⟨pre, post, hl⟩ := List.append_of_mem hm
    have hout : h ∉ pre ++ post := by
      rw [hl] at hn
      exact fun hm => (List.mem_append.mp hm).elim (nodup_split hn).1 (nodup_split hn).2
    rw [hl] at hs
    have hsame : ∀ q ∈ sameAddress x.state h post, q ∈ pre ++ h :: post := fun q hq =>
      List.mem_append_right _ (List.mem_cons_of_mem _ (List.mem_of_mem_filter hq))
    -- the list of the state says nothing about the records that count
    have hlist : ∀ {t : State}, Explained past m (pre ++ h :: post) t →
        Explained past m (pre ++ h :: post) { t with gPatchedFunctions := pre ++ post } :=
      fun ht => ht.same rfl rfl fun _ => .rfl
    obtain ⟨_, ⟨_, rfl⟩ | ⟨hp, s₁, h₁, hcase⟩⟩ := fpRemoveFunctionPatch_ok hl hn hrun
    · rw [(destroy_frame _ _).list]
      exact (hlist hs).drop hout
    have hs₁ : Explained past m (pre ++ h :: post) s₁ := by
      refine forEach_induct_arrives _ ?_ hs h₁
      intro t q b t' harr ht hr
      have hq : q ∈ pre ++ h :: post := by
        rcases List.mem_append.mp harr.mem with hq | hq
        · exact hsame q (List.mem_reverse.mp hq)
        · simp [List.mem_singleton.mp hq]
      refine ht.restoreFunction hx ?_ hq hr
      rw [hev]
      exact .removed hl hp harr
    rcases hcase with ⟨_, rfl⟩ | ⟨hp₁, s₂, h₂, rfl⟩
    · rw [(destroy_frame _ _).list]
      exact (hlist hs₁).drop hout
    · have hs₂ : Explained past m (pre ++ h :: post) s₂ := by
        refine forEach_induct_arrives _ ?_ (hlist hs₁) h₂
        intro t q b t' harr ht hr
        refine ht.patchFunction hx ?_ (hsame q harr.mem) hr
        rw [hev]
        exact .reapplied hl hp h₁ hp₁ harr
      rw [(destroy_frame _ _).list, forEach_patchFunction_list h₂]
      exact hs₂.drop hout
  · rw [fpRemoveFunctionPatch_not_mem hm] at hrun
    cases hrun
    exact hs

/-- A pass over the list keeps the explanation, where the event says so. -/
theorem Explained.pass (hs : Explained past m x.state.gPatchedFunctions s) (hx : x ∈ past)
    (hl : s.gPatchedFunctions = x.state.gPatchedFunctions)
    (hcall : ∀ t p, Arrives (FunctionPatcher.patchFunction x.env) s x.state.gPatchedFunctions t p →
      x.event.Patches x.env x.state t p)
    (hrun : forEach (FunctionPatcher.patchFunction x.env) s x.state.gPatchedFunctions = .ok s') :
    Explained past m s'.gPatchedFunctions s' := by
  rw [forEach_patchFunction_list hrun, hl]
  refine forEach_induct_arrives _ ?_ hs hrun
  intro t p b t' harr ht hr
  exact ht.patchFunction hx (hcall t p harr) harr.mem hr

theorem Explained.event (hs : Explained past m x.state.gPatchedFunctions x.state) (hx : x ∈ past)
    (hn : x.state.gPatchedFunctions.Nodup) (hrun : x.event.run x.env x.state = .ok s') :
    Explained past m s'.gPatchedFunctions s' := by
  cases hev : x.event with
  | add fd =>
    rw [hev] at hrun
    obtain ⟨res, hadd⟩ := Event.run_ok_add hrun
    exact hs.add hx hev hadd
  | remove h =>
    rw [hev] at hrun
    obtain ⟨st, hrem⟩ := Event.run_ok_remove hrun
    exact hs.remove hx hev hn hrem
  | notify module reason =>
    rw [hev] at hrun
    cases reason with
    | loaded =>
      refine hs.pass hx rfl ?_ hrun
      intro t p harr
      rw [hev]
      exact .loaded harr
    | unloaded =>
      have hnotify : notifyCallback x.env x.state module .unloaded = .ok s' := hrun
      rw [notifyCallback_list hnotify]
      cases hrun
      refine Explained.cleared ?_ (checkLoop_cleared _ _ _ _)
      split
      · exact (hs.cleared (clearLibrary_cleared _ _ x.state)).same rfl rfl fun _ => .rfl
      · exact hs.same rfl rfl fun _ => .rfl
  | applicationStarts =>
    rw [hev] at hrun
    simp only [Event.run, FunctionPatcher.applicationStarts] at hrun
    split at hrun
    · cases hrun
      exact hs
    · rename_i hupid
      have hc : Cleared x.state (checkIfPatchedFunctionsAreStillInMemory x.env x.state) := checkLoop_cleared _ _ _ _
      rw [hc.list] at hrun
      refine (hs.cleared hc).pass hx hc.list ?_ hrun
      intro t p harr
      rw [hev]
      exact .started hupid harr
  | applicationEnds =>
    rw [hev] at hrun
    cases hrun
    exact hs.same rfl rfl fun _ => .rfl

end

/-! ## Runs -/

theorem explained_of_steps {W : Setting} {s₀ s : State} {past : List (Occurrence W)} (h₀ : State.Initial s₀)
    (hrun : Run W s₀ past s) : Explained past s₀.mem s.gPatchedFunctions s ∧ s.gPatchedFunctions.Nodup := by
  induction hrun with
  | start =>
    rw [h₀.empty]
    exact ⟨⟨⟨[], .nil, rfl, fun p => by simp [standing, patchedRecord]⟩, by simp⟩, List.nodup_nil⟩
  | event x _ hrun ih =>
    obtain ⟨hs, hn⟩ := ih
    have hs := hs.mono (List.subset_cons_self x _)
    exact ⟨hs.event (List.mem_cons_self ..) hn hrun, Event.run_nodup x.fresh hn hrun⟩
  | memory mem _ hmem ih =>
    obtain ⟨hs, hn⟩ := ih
    obtain ⟨ds, hlaw, hm, hst⟩ := hs.history
    rw [← hm] at hmem
    exact ⟨⟨⟨.foreign mem :: ds, hlaw.foreign mem hmem, rfl, hst⟩, hs.registered⟩, hn⟩

/-- **Provenance.** Every run has a history that leaves its memory. A record that is patched was applied by a call
that an event of the run made, on a caller's request and on the memory of that moment, and nothing has been done to
it since; one that is not patched does not stand. What an undo writes back is what such a call found there. A word
that has changed was changed by somebody else, or a record was applied at its address. -/
theorem provenance_of_steps {W : Setting} {s₀ s : State} {past : List (Occurrence W)} (h₀ : State.Initial s₀)
    (hrun : Run W s₀ past s) :
    ∃ ds, Lawful past s₀.mem ds ∧ replay s₀.mem ds = s.mem ∧
      (∀ p ∈ s.gPatchedFunctions, (s.objects p).isPatched = false → standing p ds = none) ∧
      (∀ p ∈ s.gPatchedFunctions, (s.objects p).isPatched = true → ∃ above below,
        ds = above ++ .put p (s.objects p) (s.objects p).realPhysicalFunctionAddress
          (s.objects p).replaceWithInstruction :: below ∧
        (∀ d ∈ above, d.about ≠ some p) ∧ AppliedOn past (replay s₀.mem below) p (s.objects p)) ∧
      (∀ p a w below, .undo p a w :: below <:+ ds → ∃ r below', .put p r a r.replaceWithInstruction :: below' <:+ below ∧
        AppliedOn past (replay s₀.mem below') p r ∧ w = replay s₀.mem below' a ∧
        RestoredOn past (replay s₀.mem below) p r) ∧
      ∀ a, s.mem a ≠ s₀.mem a → (∃ m' below, .foreign m' :: below <:+ ds ∧ m' a ≠ replay s₀.mem below a) ∨
        ∃ p r below, .put p r a r.replaceWithInstruction :: below <:+ ds ∧ AppliedOn past (replay s₀.mem below) p r := by
  obtain ⟨hs, _⟩ := explained_of_steps h₀ hrun
  obtain ⟨ds, hlaw, hmem, hst⟩ := hs.history
  refine ⟨ds, hlaw, hmem, ?_, ?_, ?_, ?_⟩
  · intro p _ hp
    rw [hst, patchedRecord_of_unpatched hp]
  · intro p hp hpp
    exact hlaw.standing_applied ((hst p).trans (patchedRecord_of_patched hp hpp))
  · intro p a w below hsuf
    exact hlaw.undo_at_put hsuf
  · intro a hne
    rw [← hmem] at hne
    exact hlaw.footprint hne

theorem execute_run {W : Setting} {s₀ s s' : State} {evs : List (Env × Event)} {past : List (Occurrence W)}
    (hevs : ∀ x ∈ evs, x.1 ∈ W.envs) (hdata : ∀ x ∈ evs, ∀ d, x.2 = .add (some d) → d ∈ W.data)
    (hpast : Run W s₀ past s) (h : execute s evs = some s') : ∃ past', Run W s₀ past' s' := by
  induction evs generalizing s past with
  | nil =>
    cases h
    exact ⟨past, hpast⟩
  | cons x rest ih =>
    obtain ⟨E, ev⟩ := x
    rw [execute] at h
    split at h
    · cases h
    rename_i hnew
    split at h
    · cases h
    rename_i s₁ hrun
    let x : Occurrence W := ⟨s, E, ev, hevs (E, ev) (by simp), hdata (E, ev) (by simp), hnew⟩
    have hpast₁ : Run W s₀ (x :: past) s₁ := .event x hpast hrun
    exact ih (fun x hx => hevs x (by simp [hx])) (fun x hx => hdata x (by simp [hx])) hpast₁ h

/-- Nobody else writes to memory. -/
def quietSetting : Setting where
  envs := fun E => ∃ p, E = plainEnv p false
  data := fun d => ∃ a b, d = plainData .other a b .all
  foreign := fun _ _ => False
  physicalOf := (plainEnv 0 false).osEffectiveToPhysical
  translates := by
    rintro E ⟨p, rfl⟩
    rfl
  writes := by
    rintro E ⟨p, rfl⟩
    exact plainEnv_writes p false

/-- Two functions are patched, and one patch is removed. -/
def removedOne : List (Env × Event) :=
  [(plainEnv 0x10 false, plainPatch .other 0x02000400 0x1000 .all),
   (plainEnv 0x20 false, plainPatch .other 0x02000500 0x2000 .all), (plainEnv 0x30 false, .remove 0x10)]

theorem provenance_of_steps_removedOne : ∃ past ds, Lawful (W := quietSetting) past (plainState 0x7c0802a6).mem ds ∧
    replay (plainState 0x7c0802a6).mem ds = (ran (plainState 0x7c0802a6) removedOne).mem ∧
    (∃ r, .put 0x20 r 0x02000500 0x48002002 ∈ ds) ∧
    ∀ a, (ran (plainState 0x7c0802a6) removedOne).mem a ≠ 0x7c0802a6 →
      ∃ p r below, .put p r a r.replaceWithInstruction :: below <:+ ds ∧
        AppliedOn past (replay (plainState 0x7c0802a6).mem below) p r := by
  have hexecute : execute (plainState 0x7c0802a6) removedOne = some (ran (plainState 0x7c0802a6) removedOne) :=
    (Option.getD_of_ne_none (Option.isSome_iff_ne_none.mp (by decide +kernel)) _).symm
  have henvs : ∀ x ∈ removedOne, x.1 ∈ quietSetting.envs := by
    simp only [removedOne, List.forall_mem_cons, List.not_mem_nil, false_implies, implies_true, and_true]
    exact ⟨⟨_, rfl⟩, ⟨_, rfl⟩, ⟨_, rfl⟩⟩
  have hdata : ∀ x ∈ removedOne, ∀ d, x.2 = .add (some d) → d ∈ quietSetting.data := by
    simp only [removedOne, List.forall_mem_cons, List.not_mem_nil, false_implies, implies_true, and_true]
    refine ⟨?_, ?_, ?_⟩
    · intro d hd
      cases hd
      exact ⟨_, _, rfl⟩
    · intro d hd
      cases hd
      exact ⟨_, _, rfl⟩
    · intro d hd
      cases hd
  obtain ⟨past, hrun⟩ := execute_run henvs hdata .start hexecute
  obtain ⟨ds, hlaw, hmem, _, hpatched, _, hfoot⟩ := provenance_of_steps (plainState_initial 0x7c0802a6) hrun
  refine ⟨past, ds, hlaw, hmem, ?_, ?_⟩
  · obtain ⟨above, below, hds, _⟩ := hpatched 0x20 (by decide +kernel) (by decide +kernel)
    have hat : ((ran (plainState 0x7c0802a6) removedOne).objects 0x20).realPhysicalFunctionAddress = 0x02000500 := by
      decide +kernel
    have hjump : ((ran (plainState 0x7c0802a6) removedOne).objects 0x20).replaceWithInstruction = 0x48002002 := by
      decide +kernel
    rw [hat, hjump] at hds
    rw [hds]
    exact ⟨_, List.mem_append_right _ (List.mem_cons_self ..)⟩
  · intro a hne
    refine (hfoot a hne).resolve_left ?_
    rintro ⟨m', below, hsuf, _⟩
    cases hlaw.suffix hsuf with
    | foreign _ _ h => exact h

end FunctionPatcher
