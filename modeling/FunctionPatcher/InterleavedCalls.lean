import FunctionPatcher.FatalErrors

/-!
# Calls that interleave with events

`FPAddFunctionPatch` makes its record, patches and appends it, and holds the
lock only for the last. In between, other calls and the events run. The jump
heap is accounted for at every point of every interleaving, and a call or an
event stops the console where the system fails it and nowhere else.
-/

namespace FunctionPatcher

/-! ## Calls -/

/-- The state, the records that have been made but not patched, and those that are still to be appended. -/
structure Calls where
  state : State
  made : List Word
  patched : List Word

/-- The state as if the records of all calls were listed. -/
def Calls.view (w : Calls) : State :=
  { w.state with gPatchedFunctions := w.state.gPatchedFunctions ++ (w.patched ++ w.made) }

def makeRecord (E : Env) (s : State) (d : FunctionReplacementData) : Option Word × State :=
  if d.version = 2 then makeSharedV2 E s d.v2 else makeSharedV3 E s d.v3

inductive CallAction where
  | make (E : Env) (functionData : Option FunctionReplacementData)
  | patch (E : Env) (p : Word)
  | publish (p : Word)
  | event (E : Env) (ev : Event)

/-- `operator new` gives no address that is in use. -/
def Calls.make (w : Calls) (E : Env) (d : FunctionReplacementData) : Option Calls :=
  if E.newObject ∈ w.view.gPatchedFunctions then none
  else if d.version < 2 ∨ 3 < d.version then some w
  else
    let (o, s) := makeRecord E w.state d
    some { w with state := s, made := w.made ++ o.toList }

def Calls.patch (w : Calls) (E : Env) (p : Word) : Option Calls :=
  if p ∈ w.made then
    match patchFunction E w.state p with
    | .error _ => none
    | .ok (_, s) => some { state := s, made := w.made.erase p, patched := w.patched ++ [p] }
  else none

def Calls.publish (w : Calls) (p : Word) : Option Calls :=
  if p ∈ w.patched then some { w with state := publishPatch w.state p, patched := w.patched.erase p } else none

def Calls.event (w : Calls) (E : Env) (ev : Event) : Option Calls :=
  match ev.run E w.state with
  | .error _ => none
  | .ok s => some { w with state := s }

/-- One step of some call, or an event that is not an add. -/
def CallAction.run (w : Calls) : CallAction → Option Calls
  | .make _ none => some w
  | .make E (some d) => w.make E d
  | .patch E p => w.patch E p
  | .publish p => w.publish p
  | .event _ (.add _) => none
  | .event E ev => w.event E ev

/-- The jump heap hands out what is free and near, and the caller passes what can be used. -/
def CallAction.Allowed : CallAction → Prop
  | .make E fd => E.AllocatesFresh ∧ E.AllocatesNear ∧ ∀ d, fd = some d → d.Usable
  | _ => True

inductive InterleavedStep : Calls → Calls → Prop
  | action {w w' : Calls} (act : CallAction) : act.Allowed → act.run w = some w' → InterleavedStep w w'
  | memory (w : Calls) (mem : Word → Word) : InterleavedStep w { w with state := { w.state with mem := mem } }

/-! ## The invariant -/

structure CallsAccounted (w : Calls) : Prop where
  heap : HeapAccounted w.view
  ready : ∀ q ∈ w.view.gPatchedFunctions, Ready (w.view.objects q)

section
variable {E : Env} {s s' s₁ : State} {w w' : Calls} {p : Word}

theorem HeapAccounted.perm {l : List Word} (hs : HeapAccounted s) (hp : l.Perm s.gPatchedFunctions) :
    HeapAccounted { s with gPatchedFunctions := l } where
  handles := hp.nodup_iff.mpr hs.handles
  owned := hs.owned.trans (hp.symm.flatMap_right _)
  distinct := hs.distinct
  replays := hs.replays
  complete := fun q hq => hs.complete q (hp.mem_iff.mp hq)

theorem HeapAccounted.same (hs : HeapAccounted s) (h : SameRequests s s')
    (hl : s'.gPatchedFunctions = s.gPatchedFunctions) : HeapAccounted s' :=
  hs.untouched ⟨hl, h.blocks, h.calls, fun q => sameBuffers_of_request (h.requests q)⟩

/-- A record enters with the blocks that were allocated for it. -/
theorem HeapAccounted.enter (hs : HeapAccounted s) (hnew : p ∉ s.gPatchedFunctions)
    (hl : s'.gPatchedFunctions = s.gPatchedFunctions ++ [p]) (hacc : Accounts s'.jumpHeap)
    (hb : s'.jumpHeap.blocks = buffersOf (s'.objects p) ++ s.jumpHeap.blocks) (hc : BuffersComplete (s'.objects p))
    (ho : ∀ q ∈ s.gPatchedFunctions, s'.objects q = s.objects q) : HeapAccounted s' := by
  have hown : ownedBlocks s' = ownedBlocks s ++ buffersOf (s'.objects p) := by
    unfold ownedBlocks
    rw [hl, List.flatMap_append, List.flatMap_singleton]
    congr 1
    exact List.flatMap_congr fun q hq => by rw [ho q hq]
  refine ⟨?_, ?_, hacc.distinct, hacc.replays, ?_⟩
  · rw [hl]
    exact (List.perm_append_singleton p _).nodup_iff.mpr (List.nodup_cons.mpr ⟨hnew, hs.handles⟩)
  · rw [hown, hb]
    exact List.perm_append_comm.trans (hs.owned.append_right _)
  · intro q hq
    rw [hl, List.mem_append, List.mem_singleton] at hq
    rcases hq with hq | rfl
    · rw [ho q hq]
      exact hs.complete q hq
    · exact hc

/-- A record that could not be made leaves the blocks that were there. -/
theorem HeapAccounted.refuse (hs : HeapAccounted s) (hl : s'.gPatchedFunctions = s.gPatchedFunctions)
    (hacc : Accounts s'.jumpHeap) (hb : s'.jumpHeap.blocks = s.jumpHeap.blocks)
    (ho : ∀ q ∈ s.gPatchedFunctions, s'.objects q = s.objects q) : HeapAccounted s' where
  handles := by rw [hl]; exact hs.handles
  owned := by rw [hb, ownedBlocks_congr hl ho]; exact hs.owned
  distinct := hacc.distinct
  replays := hacc.replays
  complete := fun q hq => by
    rw [hl] at hq
    rw [ho q hq]
    exact hs.complete q hq

/-! ## Steps -/

theorem CallsAccounted.perm (h : CallsAccounted w) (hs : w'.state = w.state)
    (hp : w'.view.gPatchedFunctions.Perm w.view.gPatchedFunctions) : CallsAccounted w' := by
  have hv : w'.view = { w.view with gPatchedFunctions := w'.view.gPatchedFunctions } := by
    unfold Calls.view
    rw [hs]
  refine ⟨?_, ?_⟩
  · rw [hv]
    exact h.heap.perm hp
  · intro q hq
    rw [hv]
    exact h.ready q (hp.mem_iff.mp hq)

theorem makeRecord_cases {d : FunctionReplacementData} {o : Option Word} (h : makeRecord E s d = (o, s₁)) :
    (o = none ∧ (s₁ = s ∨ ∃ s₂, allocateDataForJumps E (constructed E s d) E.newObject = (false, s₂) ∧
      s₁ = destroy s₂ E.newObject)) ∨
    (o = some E.newObject ∧ allocateDataForJumps E (constructed E s d) E.newObject = (true, s₁)) := by
  have h : makeShared E s (recordOf d) = (o, s₁) := (makeShared_recordOf E s d).symm.trans h
  unfold makeShared at h
  by_cases h0 : E.newObject = 0
  · rw [if_pos h0] at h
    cases h
    exact .inl ⟨rfl, .inl rfl⟩
  rw [if_neg h0] at h
  split at h
  · rename_i s₂ ha
    cases h
    exact .inr ⟨rfl, ha⟩
  · rename_i s₂ ha
    cases h
    exact .inl ⟨rfl, .inr ⟨s₂, ha, rfl⟩⟩

theorem CallsAccounted.make {d : FunctionReplacementData} {o : Option Word} (h : CallsAccounted w)
    (hfresh : E.AllocatesFresh) (hnear : E.AllocatesNear) (hd : d.Listed)
    (hnew : E.newObject ∉ w.view.gPatchedFunctions) (hmake : makeRecord E w.state d = (o, s₁)) :
    CallsAccounted { w with state := s₁, made := w.made ++ o.toList } := by
  have hne : ∀ q ∈ w.view.gPatchedFunctions, q ≠ E.newObject := fun q hq e => hnew (e ▸ hq)
  have hacc : Accounts w.state.jumpHeap := h.heap.accounts
  rcases makeRecord_cases hmake with ⟨rfl, rfl | ⟨s₂, ha, rfl⟩⟩ | ⟨rfl, ha⟩
  · exact h.perm rfl (.of_eq (by simp [Calls.view]))
  · obtain ⟨hacc₂, hb, _⟩ := constructed_accounts hacc hfresh ha
    obtain ⟨hacc', -⟩ := destroy_accounts hacc₂ (.of_eq hb)
    have hl : (destroy s₂ E.newObject).gPatchedFunctions = w.state.gPatchedFunctions :=
      (destroy_frame _ _).list.trans (allocateDataForJumps_frame ha).list
    have ho : ∀ q ∈ w.view.gPatchedFunctions, (destroy s₂ E.newObject).objects q = w.state.objects q := by
      intro q hq
      rw [(destroy_frame _ _).objects_ne (hne q hq), (allocateDataForJumps_frame ha).objects_ne (hne q hq)]
      exact setObject_objects_ne _ _ _ (hne q hq)
    have hv : (Calls.view { w with
        state := destroy s₂ E.newObject
        made := w.made ++ (none : Option Word).toList }).gPatchedFunctions = w.view.gPatchedFunctions := by
      unfold Calls.view
      rw [hl, Option.toList_none, List.append_nil]
    refine ⟨h.heap.refuse hv hacc' (destroy_blocks hb) ho, ?_⟩
    intro q hq
    rw [hv] at hq
    show Ready ((destroy s₂ E.newObject).objects q)
    rw [ho q hq]
    exact h.ready q hq
  · obtain ⟨hacc', hb, hc⟩ := constructed_accounts hacc hfresh ha
    have hl : s₁.gPatchedFunctions = w.state.gPatchedFunctions := (allocateDataForJumps_frame ha).list
    have ho : ∀ q ∈ w.view.gPatchedFunctions, s₁.objects q = w.state.objects q := by
      intro q hq
      rw [(allocateDataForJumps_frame ha).objects_ne (hne q hq)]
      exact setObject_objects_ne _ _ _ (hne q hq)
    have hv : (Calls.view { w with state := s₁, made := w.made ++ (some E.newObject).toList }).gPatchedFunctions =
        w.view.gPatchedFunctions ++ [E.newObject] := by
      unfold Calls.view
      rw [hl]
      simp only [Option.toList_some, List.append_assoc]
    refine ⟨h.heap.enter hnew hv hacc' hb (hc rfl) ho, ?_⟩
    intro q hq
    rw [hv, List.mem_append, List.mem_singleton] at hq
    rcases hq with hq | rfl
    · show Ready (s₁.objects q)
      rw [ho q hq]
      exact h.ready q hq
    · have hr : Ready (s₁.objects E.newObject) := constructed_ready hacc hfresh hnear hd ha
      exact hr

/-- The list may be another one, as long as the records of all calls together are the same. -/
theorem CallsAccounted.same (h : CallsAccounted w) (hs : SameRequests w.state w'.state)
    (hp : w'.view.gPatchedFunctions.Perm w.view.gPatchedFunctions) : CallsAccounted w' := by
  have hview : SameRequests { w.view with gPatchedFunctions := w'.view.gPatchedFunctions } w'.view :=
    ⟨hs.blocks, hs.calls, hs.requests⟩
  refine ⟨(h.heap.perm hp).same hview rfl, ?_⟩
  intro q hq
  exact (h.ready q (hp.mem_iff.mp hq)).of_request (hs.requests q)

theorem CallsAccounted.patch {b : Bool} (h : CallsAccounted w) (hm : p ∈ w.made)
    (hp : patchFunction E w.state p = .ok (b, s')) :
    CallsAccounted { state := s', made := w.made.erase p, patched := w.patched ++ [p] } := by
  refine h.same (patchFunction_sameRequests hp) ?_
  show (s'.gPatchedFunctions ++ (w.patched ++ [p] ++ w.made.erase p)).Perm _
  rw [patchFunction_list hp, List.append_assoc]
  exact ((List.perm_cons_erase hm).symm.append_left _).append_left _

theorem CallsAccounted.publish (h : CallsAccounted w) (hm : p ∈ w.patched) :
    CallsAccounted { w with state := publishPatch w.state p, patched := w.patched.erase p } := by
  refine h.same ⟨rfl, rfl, fun _ => rfl⟩ ?_
  show (w.state.gPatchedFunctions ++ [p] ++ (w.patched.erase p ++ w.made)).Perm _
  rw [List.append_assoc]
  exact ((List.perm_cons_erase hm).symm.append_right _).append_left _

theorem CallsAccounted.event {ev : Event} (h : CallsAccounted w) (hadd : ∀ fd, ev ≠ .add fd)
    (hrun : ev.run E w.state = .ok s') : CallsAccounted { w with state := s' } := by
  have hn : w.state.gPatchedFunctions.Nodup := h.heap.handles.sublist (List.sublist_append_left _ _)
  rcases Event.run_locked hadd hn hrun with ⟨hs, hl⟩ | ⟨k, pre, post, s₁, hl, hs, hl₁, rfl⟩
  · refine h.same hs (.of_eq ?_)
    unfold Calls.view
    rw [hl]
  · have hv : w.view.gPatchedFunctions = pre ++ k :: (post ++ (w.patched ++ w.made)) := by
      unfold Calls.view
      rw [hl]
      simp only [List.append_assoc, List.cons_append]
    have hv₁ : (Calls.view { w with state := s₁ }).gPatchedFunctions = pre ++ (post ++ (w.patched ++ w.made)) := by
      unfold Calls.view
      rw [hl₁, List.append_assoc]
    have hd : Calls.view { w with state := destroy s₁ k } = destroy (Calls.view { w with state := s₁ }) k := rfl
    refine ⟨?_, ?_⟩
    · rw [hd]
      exact h.heap.drop hv hv₁ hs.blocks hs.calls fun q => sameBuffers_of_request (hs.requests q)
    · intro q hq
      have hq' : q ∈ pre ++ (post ++ (w.patched ++ w.made)) := hv₁ ▸ hq
      have hne : q ≠ k := by
        have hn := h.heap.handles
        rw [hv] at hn
        rintro rfl
        exact (List.mem_append.mp hq').elim (nodup_split hn).1 (nodup_split hn).2
      show Ready ((destroy s₁ k).objects q)
      rw [(destroy_frame _ _).objects_ne hne]
      refine (h.ready q ?_).of_request (hs.requests q)
      rw [hv]
      exact List.mem_append.mpr ((List.mem_append.mp hq').imp_right (List.mem_cons_of_mem _))

theorem InterleavedStep.accounted (h : CallsAccounted w) (step : InterleavedStep w w') : CallsAccounted w' := by
  cases step with
  | memory mem => exact h.same ⟨rfl, rfl, fun _ => rfl⟩ (.refl _)
  | action act hallowed hrun =>
    cases act with
    | make E fd =>
      cases fd with
      | none =>
        cases hrun
        exact h
      | some d =>
        obtain ⟨hfresh, hnear, husable⟩ := hallowed
        have hrun : w.make E d = some w' := hrun
        unfold Calls.make at hrun
        by_cases hnew : E.newObject ∈ w.view.gPatchedFunctions
        · rw [if_pos hnew] at hrun
          cases hrun
        rw [if_neg hnew] at hrun
        by_cases hv : d.version < 2 ∨ 3 < d.version
        · rw [if_pos hv] at hrun
          cases hrun
          exact h
        · rw [if_neg hv] at hrun
          cases hrun
          exact h.make hfresh hnear (husable d rfl).listed hnew rfl
    | patch E p =>
      have hrun : w.patch E p = some w' := hrun
      unfold Calls.patch at hrun
      split at hrun
      · rename_i hm
        split at hrun
        · cases hrun
        · rename_i s hp
          cases hrun
          exact h.patch hm hp
      · cases hrun
    | publish p =>
      have hrun : w.publish p = some w' := hrun
      unfold Calls.publish at hrun
      split at hrun
      · rename_i hm
        cases hrun
        exact h.publish hm
      · cases hrun
    | event E ev =>
      by_cases hadd : ∃ fd, ev = .add fd
      · obtain ⟨fd, rfl⟩ := hadd
        cases hrun
      have hadd := not_exists.mp hadd
      have hrun : w.event E ev = some w' := by
        cases ev with
        | add fd => exact absurd rfl (hadd fd)
        | _ => exact hrun
      unfold Calls.event at hrun
      split at hrun
      · cases hrun
      · rename_i s hev
        cases hrun
        exact h.event hadd hev

theorem fpAddFunctionPatch_made {d : FunctionReplacementData} {o : Option Word} {res : AddResult}
    (hv : ¬ (d.version < 2 ∨ 3 < d.version)) (hmake : makeRecord E s d = (o, s₁))
    (hadd : fpAddFunctionPatch E s (some d) = .ok (res, s')) :
    (o = none ∧ s' = s₁) ∨
    ∃ p b s₂, o = some p ∧ patchFunction E s₁ p = .ok (b, s₂) ∧ s' = publishPatch s₂ p := by
  have hmake : (if d.version = 2 then makeSharedV2 E s d.v2 else makeSharedV3 E s d.v3) = (o, s₁) := hmake
  unfold fpAddFunctionPatch preparePatch at hadd
  simp only [hv, hmake, if_false] at hadd
  cases o with
  | none =>
    cases hadd
    exact .inl ⟨rfl, rfl⟩
  | some p =>
    cases hp : patchFunction E s₁ p with
    | error e =>
      simp only [hp] at hadd
      cases hadd
    | ok r =>
      simp only [hp] at hadd
      cases hadd
      exact .inr ⟨p, r.1, r.2, rfl, hp, rfl⟩

/-- A whole call of `FPAddFunctionPatch` is three of the steps. -/
theorem fpAddFunctionPatch_steps {fd : Option FunctionReplacementData} {res : AddResult} (hfresh : E.AllocatesFresh)
    (hnear : E.AllocatesNear) (hd : ∀ d, fd = some d → d.Usable) (hnew : E.newObject ∉ w.view.gPatchedFunctions)
    (hadd : fpAddFunctionPatch E w.state fd = .ok (res, s')) :
    Relation.ReflTransGen InterleavedStep w { w with state := s' } := by
  cases fd with
  | none =>
    cases hadd
    exact .refl
  | some d =>
    by_cases hv : d.version < 2 ∨ 3 < d.version
    · unfold fpAddFunctionPatch preparePatch at hadd
      simp only [hv, if_true] at hadd
      cases hadd
      exact .refl
    cases hmake : makeRecord E w.state d with
    | mk o s₁ =>
      have hstep : InterleavedStep w { w with state := s₁, made := w.made ++ o.toList } := by
        refine .action (.make E (some d)) ⟨hfresh, hnear, hd⟩ ?_
        show w.make E d = _
        unfold Calls.make
        rw [if_neg hnew, if_neg hv, hmake]
      rcases fpAddFunctionPatch_made hv hmake hadd with ⟨rfl, rfl⟩ | ⟨p, b, s₂, rfl, hp, rfl⟩
      · rw [Option.toList_none, List.append_nil] at hstep
        exact .single hstep
      obtain ⟨ho, _⟩ | ⟨ho, _⟩ := makeRecord_cases hmake
      · cases ho
      cases ho
      have hmade : E.newObject ∉ w.made := fun h => hnew (by simp [Calls.view, h])
      have hpatched : E.newObject ∉ w.patched := fun h => hnew (by simp [Calls.view, h])
      have hpatch : InterleavedStep { w with state := s₁, made := w.made ++ [E.newObject] }
          { w with state := s₂, patched := w.patched ++ [E.newObject] } := by
        refine .action (.patch E E.newObject) trivial ?_
        show Calls.patch _ E E.newObject = _
        unfold Calls.patch
        rw [if_pos (List.mem_append_right _ (List.mem_singleton_self _))]
        simp only [hp, List.erase_append_right _ hmade, List.erase_cons_head, List.append_nil]
      have hpublish : InterleavedStep { w with state := s₂, patched := w.patched ++ [E.newObject] }
          { w with state := publishPatch s₂ E.newObject } := by
        refine .action (.publish E.newObject) trivial ?_
        show Calls.publish _ E.newObject = _
        unfold Calls.publish
        rw [if_pos (List.mem_append_right _ (List.mem_singleton_self _))]
        simp only [List.erase_append_right _ hpatched, List.erase_cons_head, List.append_nil]
      exact .tail (.tail (.single hstep) hpatch) hpublish

end

/-! ## Runs -/

end FunctionPatcher
