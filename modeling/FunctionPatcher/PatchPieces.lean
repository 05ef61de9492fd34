import FunctionPatcher.LoadedTwice

/-!
# `PatchFunction` in pieces

`FPAddFunctionPatch` calls `PatchFunction` without the lock, so other calls run
between its accesses to memory: it reads the word it replaces, and writes the
jump once for each core. Run without interruption, the pieces are the call.
-/

namespace FunctionPatcher

/-- What a call of `PatchFunction` does next, or what it has returned. -/
inductive Phase where
  | check
  | resolve
  | read
  | toOriginal
  | replacementJump
  | write (c : Core)
  | setPatched
  /-- The record was patched when the call began. -/
  | already
  | refused
  | applied
  deriving DecidableEq

namespace Phase

def afterWrite : Core → Phase
  | .core2 => .write .core1
  | .core1 => .write .core0
  | .core0 => .setPatched

def step (E : Env) (p : Word) (s : State) : Phase → Except String (Phase × State)
  | .check =>
    if (s.objects p).isPatched then .ok (.already, s)
    else
      match shouldBePatched E s (s.objects p) with
      | .error e => .error e
      | .ok (false, s) => .ok (.refused, s)
      | .ok (true, s) => .ok (.resolve, s)
  | .resolve =>
    match updateFunctionAddresses E s p with
    | .error e => .error e
    | .ok (false, s) => .ok (.refused, s)
    | .ok (true, s) => .ok (.read, s)
  | .read =>
    match readFromPhysicalAddress E s (s.objects p).realPhysicalFunctionAddress with
    | none => .error "FunctionPatcherModule: Failed to read instruction."
    | some replacedInstruction =>
      .ok (.toOriginal, s.setObject p { s.objects p with replacedInstruction := replacedInstruction })
  | .toOriginal => (generateJumpToOriginal s p).map fun s => (.replacementJump, s)
  | .replacementJump => (generateReplacementJump E s p).map fun s => (.write .core2, s)
  | .write c => .ok (afterWrite c, if E.pThread c ∧ E.pThreadStack c then writeDataAndFlushIC E p c s else s)
  | .setPatched => .ok (.applied, s.setObject p { s.objects p with isPatched := true })
  | φ => .ok (φ, s)

def steps (E : Env) (p : Word) : Nat → Phase × State → Except String (Phase × State)
  | 0, x => .ok x
  | n + 1, (φ, s) =>
    match φ.step E p s with
    | .error e => .error e
    | .ok x => steps E p n x

/-- What a call that is over returns. -/
def result : Phase → Option Bool
  | .already => some true
  | .refused => some false
  | .applied => some true
  | _ => none

end Phase

section
variable {E : Env} {s s' : State} {p q : Word} {φ φ' : Phase}

theorem steps_over (h : φ.result.isSome = true) (n : Nat) : Phase.steps E p n (φ, s) = .ok (φ, s) := by
  have hstep : φ.step E p s = .ok (φ, s) := by
    cases φ <;> first | rfl | cases h
  induction n with
  | zero => rfl
  | succ n ih =>
    rw [Phase.steps, hstep]
    exact ih

theorem steps_applyPatch (E : Env) (s : State) (p : Word) :
    (Phase.steps E p 7 (.read, s)).map (fun x => (x.1.result, x.2)) =
      (applyPatch E s p).map fun r => (some r.1, r.2) := by
  unfold applyPatch
  rw [Phase.steps, Phase.step]
  cases hread : readFromPhysicalAddress E s (s.objects p).realPhysicalFunctionAddress with
  | none => rfl
  | some w =>
    simp only
    rw [Phase.steps, Phase.step]
    cases hjump : generateJumpToOriginal (s.setObject p { s.objects p with replacedInstruction := w }) p with
    | error e => rfl
    | ok s₁ =>
      simp only [Except.map]
      rw [Phase.steps, Phase.step]
      cases hgen : generateReplacementJump E s₁ p with
      | error e => rfl
      | ok s₂ => rfl

/-- A call that nothing interrupts. -/
theorem steps_patchFunction (E : Env) (s : State) (p : Word) :
    (Phase.steps E p 9 (.check, s)).map (fun x => (x.1.result, x.2)) =
      (patchFunction E s p).map fun r => (some r.1, r.2) := by
  unfold patchFunction
  rw [Phase.steps, Phase.step]
  cases hp : (s.objects p).isPatched with
  | true =>
    simp only [if_true]
    rw [steps_over rfl]
    rfl
  | false =>
    simp only [Bool.false_eq_true, if_false]
    cases hcheck : shouldBePatched E s (s.objects p) with
    | error e => rfl
    | ok r =>
      obtain ⟨b, s₁⟩ := r
      cases b with
      | false =>
        simp only
        rw [steps_over rfl]
        rfl
      | true =>
        simp only
        rw [Phase.steps, Phase.step]
        cases hres : updateFunctionAddresses E s₁ p with
        | error e => rfl
        | ok r =>
          obtain ⟨b, s₂⟩ := r
          cases b with
          | false =>
            simp only
            rw [steps_over rfl]
            rfl
          | true => exact steps_applyPatch E s₂ p

end

end FunctionPatcher
