import FunctionPatcher.StackRuns

/-!
# Clients that register at the same time

`FPAddFunctionPatch` patches the new record first and takes the lock only to
append it. Between the two steps the jump is in memory and the record is not in
the list, so another client may write and publish. List order is then write
order as long as each client publishes before the next one on its address.
-/

namespace FunctionPatcher

/-- The state, the records between their two steps, and the records whose jump has been
written, in that order. -/
structure Clients where
  state : State
  pending : List Word
  writes : List Word

def writtenAt (s : State) (ps : List Word) (a : Word) : List Word :=
  ps.filter fun p => (s.objects p).isPatched && decide ((s.objects p).realPhysicalFunctionAddress = a)

/-- The patched records of each address are listed in the order in which their jumps were written,
and the word there is the last one's jump. -/
def InWriteOrder (original : Word → Word) (w : Clients) : Prop :=
  ∀ a, writtenAt w.state w.state.gPatchedFunctions a = writtenAt w.state w.writes a ∧
    w.state.mem a = ((writtenAt w.state w.state.gPatchedFunctions a).getLast?.map
      fun p => (w.state.objects p).replaceWithInstruction).getD (original a)

inductive ClientAction where
  | prepare (E : Env) (functionData : Option FunctionReplacementData)
  | publish (p : Word)

/-- One step of some client. `operator new` gives no address that is in use. -/
def ClientAction.run (w : Clients) : ClientAction → Option Clients
  | .prepare E functionData =>
    if E.newObject ∈ w.state.gPatchedFunctions ++ w.pending then none
    else
      match preparePatch E w.state functionData with
      | .error _ => none
      | .ok (_, none, s) => some { w with state := s }
      | .ok (_, some p, s) =>
        some
          { state := s
            pending := w.pending ++ [p]
            writes := if (s.objects p).isPatched then w.writes ++ [p] else w.writes }
  | .publish p =>
    if p ∈ w.pending then some { w with state := publishPatch w.state p, pending := w.pending.erase p } else none

def unpublishedAt (w : Clients) (a : Word) : List Word := writtenAt w.state (w.writes.filter (· ∈ w.pending)) a

/-- A jump reaches memory when it is written, and a patched record is published as the first of
those still pending at its address. -/
def InTurn (w : Clients) : ClientAction → Prop
  | .prepare E fd => ∀ d effective physical, fd = some d →
      targetOf E (allocated E w.state d) E.newObject = some (effective, physical) → E.Writes
  | .publish p => (w.state.objects p).isPatched = true →
      (unpublishedAt w (w.state.objects p).realPhysicalFunctionAddress).head? = some p

/-! ## The invariant -/

structure Registered (original : Word → Word) (w : Clients) : Prop where
  nodup : (w.state.gPatchedFunctions ++ w.pending).Nodup
  writesNodup : w.writes.Nodup
  written : ∀ p, p ∈ w.writes ↔ p ∈ w.state.gPatchedFunctions ++ w.pending ∧ (w.state.objects p).isPatched = true
  order : ∀ a, writtenAt w.state w.writes a =
    writtenAt w.state w.state.gPatchedFunctions a ++ unpublishedAt w a
  memory : ∀ a, w.state.mem a = ((writtenAt w.state w.writes a).getLast?.map
    fun p => (w.state.objects p).replaceWithInstruction).getD (original a)

section
variable {o : Word → Word} {w w' : Clients} {s s' : State} {p a : Word} {ps qs : List Word}

theorem writtenAt_congr (h : ∀ q ∈ ps, s'.objects q = s.objects q) : writtenAt s' ps a = writtenAt s ps a := by
  unfold writtenAt
  apply List.filter_congr
  intro q hq
  rw [h q hq]

theorem writtenAt_append : writtenAt s (ps ++ qs) a = writtenAt s ps a ++ writtenAt s qs a :=
  List.filter_append ..

theorem writtenAt_single (h : (s.objects p).isPatched = true) :
    writtenAt s [p] (s.objects p).realPhysicalFunctionAddress = [p] := by
  simp [writtenAt, h]

theorem writtenAt_single_ne (h : (s.objects p).realPhysicalFunctionAddress ≠ a) : writtenAt s [p] a = [] := by
  simp [writtenAt, h]

theorem Registered.congr (h : Registered o w) (hl : s'.gPatchedFunctions = w.state.gPatchedFunctions)
    (hm : s'.mem = w.state.mem)
    (ho : ∀ q ∈ w.state.gPatchedFunctions ++ w.pending, s'.objects q = w.state.objects q) :
    Registered o { w with state := s' } := by
  have hw : ∀ q ∈ w.writes, s'.objects q = w.state.objects q := by
    intro q hq
    exact ho q ((h.written q).mp hq).1
  have hf : ∀ a, writtenAt s' w.writes a = writtenAt w.state w.writes a := fun a => writtenAt_congr hw
  refine ⟨?_, h.writesNodup, ?_, ?_, ?_⟩
  · rw [hl]
    exact h.nodup
  · intro p
    simp only [hl]
    rw [h.written]
    constructor
    · intro ⟨hp, hpp⟩
      exact ⟨hp, by rw [ho p hp]; exact hpp⟩
    · intro ⟨hp, hpp⟩
      exact ⟨hp, by rw [← ho p hp]; exact hpp⟩
  · intro a
    have hu : unpublishedAt { w with state := s' } a = unpublishedAt w a :=
      writtenAt_congr fun q hq => hw q (List.mem_of_mem_filter hq)
    rw [hu]
    simp only [hf, hl]
    have hlist : writtenAt s' w.state.gPatchedFunctions a = writtenAt w.state w.state.gPatchedFunctions a :=
      writtenAt_congr fun q hq => ho q (List.mem_append_left _ hq)
    rw [h.order, hlist]
  · intro a
    simp only [hf, hm]
    rw [h.memory]
    congr 1
    cases hlast : (writtenAt w.state w.writes a).getLast? with
    | none => rfl
    | some q =>
      have hq : q ∈ w.writes := List.mem_of_mem_filter (List.mem_of_getLast? hlast)
      simp only [Option.map_some, hw q hq]

theorem Registered.enter (h : Registered o w) (hnew : p ∉ w.state.gPatchedFunctions ++ w.pending)
    (hp : (w.state.objects p).isPatched = false) : Registered o { w with pending := w.pending ++ [p] } := by
  have hpw : ∀ q ∈ w.writes, q ≠ p := by
    intro q hq e
    exact hnew (e ▸ ((h.written q).mp hq).1)
  refine ⟨?_, h.writesNodup, ?_, ?_, h.memory⟩
  · show (w.state.gPatchedFunctions ++ (w.pending ++ [p])).Nodup
    rw [← List.append_assoc, List.nodup_append]
    refine ⟨h.nodup, List.nodup_singleton _, ?_⟩
    intro a ha b hb hab
    rw [List.mem_singleton] at hb
    exact hnew (hb ▸ hab ▸ ha)
  · intro q
    rw [h.written]
    simp only [List.mem_append, List.mem_singleton]
    constructor
    · intro ⟨hq, hqp⟩
      exact ⟨hq.imp_right .inl, hqp⟩
    · intro ⟨hq, hqp⟩
      refine ⟨?_, hqp⟩
      rcases hq with hq | hq | rfl
      · exact .inl hq
      · exact .inr hq
      · rw [hp] at hqp
        cases hqp
  · intro a
    rw [h.order]
    congr 1
    unfold unpublishedAt
    congr 1
    apply List.filter_congr
    intro q hq
    simp [hpw q hq]

theorem Registered.apply {E : Env} {A : Application} (h : Registered o w) (hm : p ∈ w.pending)
    (hp : (w.state.objects p).isPatched = false) (hw : A.written = jumpInstruction (w.state.objects p)) :
    Registered o { state := A.result E w.state p, pending := w.pending, writes := w.writes ++ [p] } := by
  have hpw : ∀ q ∈ w.writes, q ≠ p := by
    intro q hq e
    have := ((h.written q).mp hq).2
    rw [e, hp] at this
    cases this
  have hne : ∀ q, q ≠ p → (A.result E w.state p).objects q = w.state.objects q := fun q hq =>
    Function.update_of_ne hq ..
  have hself : (A.result E w.state p).objects p = A.record w.state p := A.result_objects_self E _ _
  have hlist : ∀ q ∈ w.state.gPatchedFunctions, q ≠ p := by
    intro q hq e
    exact (List.nodup_append.mp h.nodup).2.2 q hq p hm e
  have hold : ∀ a, writtenAt (A.result E w.state p) w.writes a = writtenAt w.state w.writes a := fun a =>
    writtenAt_congr fun q hq => hne q (hpw q hq)
  refine ⟨h.nodup, ?_, ?_, ?_, ?_⟩
  · rw [List.nodup_append]
    refine ⟨h.writesNodup, List.nodup_singleton _, ?_⟩
    intro a ha b hb hab
    rw [List.mem_singleton] at hb
    exact hpw a ha (hab.trans hb)
  · intro q
    rw [List.mem_append, h.written, List.mem_singleton]
    by_cases hq : q = p
    · subst hq
      refine iff_of_true (.inr rfl) ⟨List.mem_append_right _ hm, ?_⟩
      rw [hself]
      rfl
    · rw [hne q hq]
      exact or_iff_left hq
  · intro a
    show writtenAt (A.result E w.state p) (w.writes ++ [p]) a =
      writtenAt (A.result E w.state p) w.state.gPatchedFunctions a ++
        writtenAt (A.result E w.state p) ((w.writes ++ [p]).filter (· ∈ w.pending)) a
    rw [writtenAt_append, hold, h.order, List.filter_append, List.filter_cons_of_pos (by simpa using hm),
      List.filter_nil, writtenAt_append, ← List.append_assoc]
    congr 2
    · exact (writtenAt_congr fun q hq => hne q (hlist q hq)).symm
    · exact (writtenAt_congr fun q hq => hne q (hpw q (List.mem_of_mem_filter hq))).symm
  · intro a
    show Function.update w.state.mem A.physical A.written a = _
    rw [writtenAt_append]
    by_cases ha : A.physical = a
    · subst ha
      have hone : writtenAt (A.result E w.state p) [p] A.physical = [p] := by
        simp [writtenAt, hself, Application.record]
      rw [hone, List.getLast?_concat, Function.update_self, hw]
      simp only [Option.map_some, Option.getD_some, hself]
      rfl
    · have hnone : writtenAt (A.result E w.state p) [p] a = [] := by
        apply writtenAt_single_ne
        rw [hself]
        exact ha
      rw [hnone, List.append_nil, hold, Function.update_of_ne (Ne.symm ha), h.memory]
      congr 1
      cases hlast : (writtenAt w.state w.writes a).getLast? with
      | none => rfl
      | some q =>
        have hq : q ∈ w.writes := List.mem_of_mem_filter (List.mem_of_getLast? hlast)
        simp only [Option.map_some, hne q (hpw q hq)]

theorem Registered.publish (h : Registered o w) (hm : p ∈ w.pending) (hc : InTurn w (.publish p)) :
    Registered o { w with state := publishPatch w.state p, pending := w.pending.erase p } := by
  have hpn : w.pending.Nodup := (List.nodup_append.mp h.nodup).2.1
  have hperm : (w.state.gPatchedFunctions ++ [p] ++ w.pending.erase p).Perm (w.state.gPatchedFunctions ++ w.pending) := by
    rw [List.append_assoc]
    exact (List.perm_cons_erase hm).symm.append_left _
  refine ⟨hperm.nodup_iff.mpr h.nodup, h.writesNodup, ?_, ?_, h.memory⟩
  · intro q
    rw [h.written]
    show _ ↔ q ∈ w.state.gPatchedFunctions ++ [p] ++ w.pending.erase p ∧ _
    rw [hperm.mem_iff]
    rfl
  · intro a
    -- publishing takes `p` out of the unpublished records
    have hrest : unpublishedAt { w with state := publishPatch w.state p, pending := w.pending.erase p } a =
        (unpublishedAt w a).filter (· ≠ p) := by
      unfold unpublishedAt writtenAt
      rw [List.filter_filter, List.filter_filter, List.filter_filter]
      apply List.filter_congr
      intro q _
      have he : decide (q ∈ w.pending.erase p) = (decide (q ≠ p) && decide (q ∈ w.pending)) := by
        simp [hpn.mem_erase_iff, Bool.decide_and]
      show (_ && decide (q ∈ w.pending.erase p)) = _
      rw [he]
      simp only [Bool.and_assoc, Bool.and_left_comm]
      rfl
    rw [hrest]
    show writtenAt w.state w.writes a = writtenAt w.state (w.state.gPatchedFunctions ++ [p]) a ++ _
    rw [writtenAt_append, List.append_assoc, h.order]
    congr 1
    by_cases hpa : (w.state.objects p).isPatched = true ∧ (w.state.objects p).realPhysicalFunctionAddress = a
    · obtain ⟨hpp, rfl⟩ := hpa
      obtain ⟨rest, hr⟩ := List.head?_eq_some_iff.mp (hc hpp)
      have hn : (p :: rest).Nodup := by
        rw [← hr]
        exact (h.writesNodup.filter _).filter _
      rw [writtenAt_single hpp, hr, List.filter_cons_of_neg (by simp), List.singleton_append]
      congr 1
      refine (List.filter_eq_self.mpr ?_).symm
      intro q hq
      simp only [ne_eq, decide_not, Bool.not_eq_eq_eq_not, Bool.not_true, decide_eq_false_iff_not]
      intro e
      exact (List.nodup_cons.mp hn).1 (e ▸ hq)
    · have hnone : writtenAt w.state [p] a = [] := by
        simpa [writtenAt] using hpa
      rw [hnone, List.nil_append]
      refine (List.filter_eq_self.mpr ?_).symm
      intro q hq
      simp only [ne_eq, decide_not, Bool.not_eq_eq_eq_not, Bool.not_true, decide_eq_false_iff_not]
      intro e
      subst e
      have := (List.mem_filter.mp hq).2
      simp only [Bool.and_eq_true, decide_eq_true_eq] at this
      exact hpa this

theorem Registered.construct {E : Env} (h : Registered o w) (hnew : E.newObject ∉ w.state.gPatchedFunctions ++ w.pending)
    (d : FunctionReplacementData) : Registered o { w with state := allocated E w.state d } := by
  obtain ⟨hl, hm, ho, _⟩ := allocated_spec E w.state d
  apply h.congr hl hm
  intro q hq
  exact ho q fun e => hnew (e ▸ hq)

theorem Registered.refuse {E : Env} {fd : Option FunctionReplacementData} {res : AddResult} (h : Registered o w)
    (hnew : E.newObject ∉ w.state.gPatchedFunctions ++ w.pending)
    (hrun : preparePatch E w.state fd = .ok (res, none, s')) : Registered o { w with state := s' } := by
  rcases preparePatch_ok hrun with ⟨_, _, rfl | ⟨d, s₁, _, ha, rfl⟩⟩ | ⟨ho, _⟩
  · exact h
  · have e : s₁ = allocated E w.state d := eq_allocated ha
    subst e
    refine (h.construct hnew d).congr (destroy_frame _ _).list (destroy_frame _ _).mem_eq ?_
    intro q hq
    apply (destroy_frame _ _).objects_ne
    intro e
    rw [(allocated_spec E w.state d).1] at hq
    exact hnew (e ▸ hq)
  · cases ho

theorem Registered.prepare {E : Env} {fd : Option FunctionReplacementData} {res : AddResult} (h : Registered o w)
    (hnew : E.newObject ∉ w.state.gPatchedFunctions ++ w.pending) (hc : InTurn w (.prepare E fd))
    (hrun : preparePatch E w.state fd = .ok (res, some p, s')) :
    Registered o { state := s', pending := w.pending ++ [p],
                   writes := if (s'.objects p).isPatched then w.writes ++ [p] else w.writes } := by
  rcases preparePatch_ok hrun with ⟨ho, _⟩ | ⟨ho, _, _, d, b, s₁, hd, _, _, ha, hp⟩
  · cases ho
  cases ho
  have e : s₁ = allocated E w.state d := eq_allocated ha
  subst e
  have hl := (allocated_spec E w.state d).1
  have hun := allocated_unpatched E w.state d
  have hent := (h.construct hnew d).enter (p := E.newObject) (by simp only [hl]; exact hnew) hun
  rcases patchFunction_ok hp with ⟨hp', _⟩ | ⟨_, _, P, calls, rfl⟩ | ⟨_, A, hA, rfl⟩
  · rw [hun] at hp'
    cases hp'
  · -- not applied: the record is only pending
    have hun' : ¬ ((allocated E w.state d).objects E.newObject).isPatched = true := by simp [hun]
    simp only [if_neg hun']
    exact hent.congr rfl rfl fun _ _ => rfl
  · have hself : (A.result E (allocated E w.state d) E.newObject).objects E.newObject =
        A.record (allocated E w.state d) E.newObject := A.result_objects_self E _ _
    have hpatched : (A.record (allocated E w.state d) E.newObject).isPatched = true := rfl
    rw [hself, if_pos hpatched]
    have hw := hA.written (hc d A.effective A.physical hd hA.target)
    exact hent.apply (List.mem_append_right _ (List.mem_singleton_self _)) hun hw

/-- Each action leaves the registered records stacked, and the calls that are on their way behind them. -/
theorem Registered.step {act : ClientAction} (h : Registered o w) (hc : InTurn w act)
    (hrun : act.run w = some w') : Registered o w' := by
  cases act with
  | prepare E fd =>
    simp only [ClientAction.run] at hrun
    split at hrun
    · cases hrun
    rename_i hnew
    split at hrun
    · cases hrun
    · rename_i hp
      cases hrun
      exact h.refuse hnew hp
    · rename_i hp
      cases hrun
      exact h.prepare hnew hc hp
  | publish p =>
    simp only [ClientAction.run] at hrun
    split at hrun
    · rename_i hm
      cases hrun
      exact h.publish hm hc
    · cases hrun

end

/-- **Registrations.** In every run whose steps are taken in turn, whenever no client is between
its two steps the patched records of each address are listed in the order of their writes. -/
theorem inWriteOrder_of_steps {w₀ w : Clients} (h₀ : w₀.state.Initial) (hp₀ : w₀.pending = []) (hw₀ : w₀.writes = [])
    (hrun : Relation.ReflTransGen (fun w w' => ∃ act, InTurn w act ∧ act.run w = some w') w₀ w)
    (hp : w.pending = []) : InWriteOrder w₀.state.mem w := by
  have h : Registered w₀.state.mem w := by
    clear hp
    induction hrun with
    | refl =>
      refine ⟨?_, ?_, ?_, ?_, ?_⟩
      · rw [h₀.empty, hp₀]
        exact List.nodup_nil
      · rw [hw₀]
        exact List.nodup_nil
      · intro p
        simp [h₀.empty, hp₀, hw₀]
      · intro a
        simp [h₀.empty, hw₀, writtenAt, unpublishedAt]
      · intro a
        simp [hw₀, writtenAt]
    | tail _ step ih =>
      obtain ⟨act, hc, hstep⟩ := step
      exact ih.step hc hstep
  have hlist : ∀ a, writtenAt w.state w.state.gPatchedFunctions a = writtenAt w.state w.writes a := by
    intro a
    have hnone : unpublishedAt w a = [] := by
      simp [unpublishedAt, hp, writtenAt]
    rw [h.order, hnone, List.append_nil]
  intro a
  refine ⟨hlist a, ?_⟩
  rw [hlist]
  exact h.memory a

def interleaved (acts : List ClientAction) : Clients :=
  acts.foldl (fun w act => (act.run w).getD w) ⟨plainState 0x7c0802a6, [], []⟩

def plainPrepare (p : Word) : ClientAction :=
  .prepare (plainEnv p false) (some (plainData .other 0x02000400 (p <<< 8) .all))

theorem interleaved_step {acts : List ClientAction} {act : ClientAction}
    (h : (act.run (interleaved acts)).isSome = true) :
    act.run (interleaved acts) = some (interleaved (acts ++ [act])) := by
  obtain ⟨w, hw⟩ := Option.isSome_iff_exists.mp h
  unfold interleaved at hw ⊢
  rw [List.foldl_append, List.foldl_cons, List.foldl_nil, hw]
  rfl

theorem inWriteOrder_of_steps_two : InWriteOrder (plainState 0x7c0802a6).mem
    (interleaved [plainPrepare 0x10, plainPrepare 0x20, .publish 0x10, .publish 0x20]) := by
  have hp : ∀ w p, InTurn w (plainPrepare p) := fun _ _ _ _ _ _ _ => plainEnv_writes _ _
  have hstep : ∀ (acts : List ClientAction) (act : ClientAction), InTurn (interleaved acts) act →
      (act.run (interleaved acts)).isSome = true →
      ∃ a, InTurn (interleaved acts) a ∧ a.run (interleaved acts) = some (interleaved (acts ++ [act])) :=
    fun acts act hc h => ⟨act, hc, interleaved_step h⟩
  have h₁ := hstep [] (plainPrepare 0x10) (hp _ _) (by decide +kernel)
  have h₂ := hstep [plainPrepare 0x10] (plainPrepare 0x20) (hp _ _) (by decide +kernel)
  have h₃ := hstep [plainPrepare 0x10, plainPrepare 0x20] (.publish 0x10) (fun _ => by decide +kernel) (by decide +kernel)
  have h₄ := hstep [plainPrepare 0x10, plainPrepare 0x20, .publish 0x10] (.publish 0x20) (fun _ => by decide +kernel)
    (by decide +kernel)
  exact inWriteOrder_of_steps (plainState_initial _) rfl rfl (.tail (.tail (.tail (.single h₁) h₂) h₃) h₄)
    (by decide +kernel)

theorem interleaved_not_inWriteOrder :
    (interleaved [plainPrepare 0x10, plainPrepare 0x20, .publish 0x20, .publish 0x10]).pending = [] ∧
    (interleaved [plainPrepare 0x10, plainPrepare 0x20, .publish 0x20, .publish 0x10]).state.gPatchedFunctions =
      [0x20, 0x10] ∧
    ¬ InWriteOrder (plainState 0x7c0802a6).mem
      (interleaved [plainPrepare 0x10, plainPrepare 0x20, .publish 0x20, .publish 0x10]) := by
  refine ⟨by decide +kernel, by decide +kernel, fun H => ?_⟩
  have := (H 0x02000400).1
  revert this
  decide +kernel

end FunctionPatcher
