import FunctionPatcher.Grounded
import FunctionPatcher.PatchPieces

/-!
# Patches that are applied at the same time

Any number of calls of `PatchFunction`, their pieces interleaved. However they
overlap, what a function begins with leads to its original word. A patch that is
overwritten unseen is lost, which cannot happen where a call reads a function
only while no other call is between its read and its last write there.
-/

namespace FunctionPatcher

open Overlay

/-! ## Pieces -/

def Env.runs (E : Env) (c : Core) : Bool := E.pThread c && E.pThreadStack c

namespace Phase

def pastRead : Phase → Bool
  | .toOriginal | .replacementJump | .write _ | .setPatched | .applied => true
  | _ => false

/-- Between the read and the last write. -/
def inWindow : Phase → Bool
  | .toOriginal | .replacementJump | .write _ => true
  | _ => false

/-- A thread has written the jump. -/
def wrote (E : Env) : Phase → Bool
  | .write .core1 => E.runs .core2
  | .write .core0 => E.runs .core2 || E.runs .core1
  | .setPatched | .applied => E.runs .core2 || E.runs .core1 || E.runs .core0
  | _ => false

end Phase

/-- What one piece does to memory and to its record. -/
inductive Piece (E : Env) (p : Word) (s s' : State) : Phase → Phase → Prop
  | before {φ φ' : Phase} : φ.pastRead = false → φ'.pastRead = false → s'.mem = s.mem → Piece E p s s' φ φ'
  | read : s'.mem = s.mem →
      (s'.objects p).realPhysicalFunctionAddress = (s.objects p).realPhysicalFunctionAddress →
      (s'.objects p).replacedInstruction = s.mem (s.objects p).realPhysicalFunctionAddress →
      Piece E p s s' .read .toOriginal
  | keep {φ φ' : Phase} : φ.pastRead = true → φ'.pastRead = true → φ'.wrote E = φ.wrote E →
      (φ'.inWindow = true → φ.inWindow = true) → s'.mem = s.mem →
      (s'.objects p).realPhysicalFunctionAddress = (s.objects p).realPhysicalFunctionAddress →
      (s'.objects p).replacedInstruction = (s.objects p).replacedInstruction →
      (φ.wrote E = true → (s'.objects p).replaceWithInstruction = (s.objects p).replaceWithInstruction) →
      Piece E p s s' φ φ'
  | write (c : Core) : E.runs c = true → s' = kernelCopyData s (s.objects p).realPhysicalFunctionAddress
      (s.objects p).replaceWithInstruction → Piece E p s s' (.write c) (.afterWrite c)

section
variable {E : Env} {s s' : State} {p : Word} {φ φ' : Phase}

theorem wrote_afterWrite (E : Env) (c : Core) :
    (Phase.afterWrite c).wrote E = ((Phase.write c).wrote E || E.runs c) := by
  cases c <;> rfl

theorem pastRead_afterWrite (c : Core) : (Phase.afterWrite c).pastRead = true := by
  cases c <;> rfl

theorem piece_of_check (h : Phase.check.step E p s = .ok (φ', s')) :
    (∀ q, q ≠ p → s'.objects q = s.objects q) ∧ Piece E p s s' .check φ' := by
  simp only [Phase.step] at h
  split at h
  · cases h
    exact ⟨fun _ _ => rfl, .before rfl rfl rfl⟩
  split at h
  · cases h
  · rename_i hcheck
    cases h
    obtain ⟨calls, rfl⟩ := shouldBePatched_ok hcheck
    exact ⟨fun _ _ => rfl, .before rfl rfl rfl⟩
  · rename_i hcheck
    cases h
    obtain ⟨calls, rfl⟩ := shouldBePatched_ok hcheck
    exact ⟨fun _ _ => rfl, .before rfl rfl rfl⟩

theorem piece_of_resolve (h : Phase.resolve.step E p s = .ok (φ', s')) :
    (∀ q, q ≠ p → s'.objects q = s.objects q) ∧ Piece E p s s' .resolve φ' := by
  simp only [Phase.step] at h
  split at h
  · cases h
  · rename_i hres
    cases h
    obtain ⟨P, ⟨_, rfl⟩ | ⟨hb, _⟩⟩ := updateFunctionAddresses_ok hres
    · exact ⟨fun _ _ => rfl, .before rfl rfl rfl⟩
    · cases hb
  · rename_i hres
    cases h
    obtain ⟨P, ⟨hb, _⟩ | ⟨_, _, _, _, rfl⟩⟩ := updateFunctionAddresses_ok hres
    · cases hb
    · exact ⟨fun q hq => setObject_objects_ne _ _ _ hq, .before rfl rfl rfl⟩

theorem piece_of_read (h : Phase.read.step E p s = .ok (φ', s')) :
    (∀ q, q ≠ p → s'.objects q = s.objects q) ∧ Piece E p s s' .read φ' := by
  simp only [Phase.step] at h
  split at h
  · cases h
  · rename_i w hread
    obtain ⟨_, rfl⟩ := readFromPhysicalAddress_some hread
    cases h
    refine ⟨fun q hq => setObject_objects_ne _ _ _ hq, .read rfl ?_ ?_⟩
    · rw [setObject_objects_self]
    · rw [setObject_objects_self]

theorem piece_of_toOriginal (h : Phase.toOriginal.step E p s = .ok (φ', s')) :
    (∀ q, q ≠ p → s'.objects q = s.objects q) ∧ Piece E p s s' .toOriginal φ' := by
  simp only [Phase.step] at h
  cases hgen : generateJumpToOriginal s p with
  | error e => simp [hgen, Except.map] at h
  | ok s₁ =>
    simp only [hgen, Except.map] at h
    cases h
    have e := (generateJumpToOriginal_ok rfl hgen).2
    subst e
    exact ⟨fun _ _ => rfl, .keep rfl rfl rfl (fun _ => rfl) rfl rfl rfl fun _ => rfl⟩

theorem piece_of_replacementJump (h : Phase.replacementJump.step E p s = .ok (φ', s')) :
    (∀ q, q ≠ p → s'.objects q = s.objects q) ∧ Piece E p s s' .replacementJump φ' := by
  simp only [Phase.step] at h
  cases hgen : generateReplacementJump E s p with
  | error e => simp [hgen, Except.map] at h
  | ok s₁ =>
    simp only [hgen, Except.map] at h
    cases h
    have e := (generateReplacementJump_ok rfl hgen).2
    have hself : s'.objects p = { s.objects p with replaceWithInstruction := jumpInstruction (s.objects p) } := by
      rw [e]
      exact setObject_objects_self ..
    refine ⟨fun q hq => ?_, .keep rfl rfl rfl (fun _ => rfl) ?_ (by rw [hself]) (by rw [hself]) fun h => ?_⟩
    · rw [e]
      exact setObject_objects_ne _ _ _ hq
    · rw [e]
      rfl
    · cases h

theorem piece_of_write {c : Core} (hE : E.StacksMapped) (h : (Phase.write c).step E p s = .ok (φ', s')) :
    (∀ q, q ≠ p → s'.objects q = s.objects q) ∧ Piece E p s s' (.write c) φ' := by
  simp only [Phase.step] at h
  by_cases hc : E.pThread c = true ∧ E.pThreadStack c = true
  · rw [if_pos hc] at h
    cases h
    refine ⟨fun _ _ => rfl, .write c (by simp [Env.runs, hc]) ?_⟩
    exact congrArg (kernelCopyData s _) (if_neg (hE c hc.1 hc.2))
  · rw [if_neg hc] at h
    cases h
    have hrun : E.runs c = false := by
      unfold Env.runs
      rw [← Bool.and_eq_true] at hc
      exact Bool.eq_false_iff.mpr hc
    refine ⟨fun _ _ => rfl, .keep rfl (pastRead_afterWrite c) ?_ (fun _ => rfl) rfl rfl rfl fun _ => rfl⟩
    rw [wrote_afterWrite, hrun, Bool.or_false]

/-- The pieces by what they do. No piece changes the record of another call. -/
theorem piece_of_step (hE : E.StacksMapped) (h : φ.step E p s = .ok (φ', s')) :
    (∀ q, q ≠ p → s'.objects q = s.objects q) ∧ Piece E p s s' φ φ' := by
  cases φ with
  | check => exact piece_of_check h
  | resolve => exact piece_of_resolve h
  | read => exact piece_of_read h
  | toOriginal => exact piece_of_toOriginal h
  | replacementJump => exact piece_of_replacementJump h
  | write c => exact piece_of_write hE h
  | setPatched =>
    cases h
    refine ⟨fun q hq => setObject_objects_ne _ _ _ hq,
      .keep rfl rfl rfl (fun h => by cases h) rfl ?_ ?_ fun _ => ?_⟩
      <;> rw [setObject_objects_self]
  | already =>
    cases h
    exact ⟨fun _ _ => rfl, .before rfl rfl rfl⟩
  | refused =>
    cases h
    exact ⟨fun _ _ => rfl, .before rfl rfl rfl⟩
  | applied =>
    cases h
    exact ⟨fun _ _ => rfl, .keep rfl rfl rfl id rfl rfl rfl fun _ => rfl⟩

end

/-! ## Calls -/

structure Call where
  env : Env
  phase : Phase

/-- The calls by the records they are for. -/
structure Patching where
  state : State
  calls : Word → Option Call

/-- What a record has put over a function, and what it found there. -/
structure Layer where
  saved : Word
  jump : Word
  addr : Word
  live : Bool

namespace Patching

def pastRead (w : Patching) (p : Word) : Bool := (w.calls p).any fun c => c.phase.pastRead
def inWindow (w : Patching) (p : Word) : Bool := (w.calls p).any fun c => c.phase.inWindow
def wrote (w : Patching) (p : Word) : Bool := (w.calls p).any fun c => c.phase.wrote c.env

def layer (w : Patching) (p : Word) : Layer where
  saved := (w.state.objects p).replacedInstruction
  jump := (w.state.objects p).replaceWithInstruction
  addr := (w.state.objects p).realPhysicalFunctionAddress
  live := w.wrote p

def saved (w : Patching) (p : Word) : Word := (w.layer p).saved
def jump (w : Patching) (p : Word) : Word := (w.layer p).jump
def addr (w : Patching) (p : Word) : Word := (w.layer p).addr
def live (w : Patching) (p : Word) : Bool := (w.layer p).live

def advance (w : Patching) (p : Word) (c : Call) (s : State) : Patching :=
  ⟨s, Function.update w.calls p (some c)⟩

end Patching

/-- A call begins, or makes its next step, or something is done that touches neither memory nor the record of
a call. `alone` restricts the reads: no other call is between its read and its last write at the function. -/
inductive PatchingStep (alone : Bool) : Patching → Patching → Prop
  | start {w : Patching} (E : Env) (p : Word) : E.StacksMapped →
      (∀ c, w.calls p = some c → c.phase = .refused) →
      PatchingStep alone w (w.advance p ⟨E, .check⟩ w.state)
  | piece {w : Patching} {s : State} {φ : Phase} (p : Word) (c : Call) : w.calls p = some c →
      c.phase.step c.env p w.state = .ok (φ, s) →
      (alone = true → c.phase = .read → ∀ q, q ≠ p → w.inWindow q = true → w.addr q ≠ w.addr p) →
      PatchingStep alone w (w.advance p ⟨c.env, φ⟩ s)
  | aside {w : Patching} (s : State) : s.mem = w.state.mem →
      (∀ p, (w.calls p).isSome = true → s.objects p = w.state.objects p) →
      PatchingStep alone w { w with state := s }

section
variable {alone : Bool} {w w' : Patching} {s : State} {p q : Word} {c : Call}

theorem pastRead_advance (w : Patching) (p : Word) (c : Call) (s : State) :
    (w.advance p c s).pastRead = Function.update w.pastRead p c.phase.pastRead := by
  funext q
  by_cases hq : q = p
  · subst hq
    simp [Patching.advance, Patching.pastRead]
  · simp [Patching.advance, Patching.pastRead, hq]

theorem inWindow_advance (w : Patching) (p : Word) (c : Call) (s : State) :
    (w.advance p c s).inWindow = Function.update w.inWindow p c.phase.inWindow := by
  funext q
  by_cases hq : q = p
  · subst hq
    simp [Patching.advance, Patching.inWindow]
  · simp [Patching.advance, Patching.inWindow, hq]

theorem wrote_advance (w : Patching) (p : Word) (c : Call) (s : State) :
    (w.advance p c s).wrote = Function.update w.wrote p (c.phase.wrote c.env) := by
  funext q
  by_cases hq : q = p
  · subst hq
    simp [Patching.advance, Patching.wrote]
  · simp [Patching.advance, Patching.wrote, hq]

theorem layer_advance_ne (hq : q ≠ p) (ho : s.objects q = w.state.objects q) :
    (w.advance p c s).layer q = w.layer q := by
  unfold Patching.layer
  rw [wrote_advance, Function.update_of_ne hq]
  simp [Patching.advance, ho]

theorem Phase.pastRead_of_inWindow {φ : Phase} (h : φ.inWindow = true) : φ.pastRead = true := by
  cases φ <;> first | rfl | cases h

/-! ## What a step does to the layers -/

/-- The layer is as it was, but for a jump that is not in memory yet. -/
structure Layer.Kept (l l' : Layer) : Prop where
  saved : l'.saved = l.saved
  addr : l'.addr = l.addr
  live : l'.live = l.live
  jump : l.live = true → l'.jump = l.jump

theorem Layer.Kept.of_eq {l l' : Layer} (h : l' = l) : l.Kept l' := by
  subst h
  exact ⟨rfl, rfl, rfl, fun _ => rfl⟩

theorem layer_eq (h : w'.layer q = w.layer q) : w'.saved q = w.saved q ∧ w'.addr q = w.addr q ∧
    w'.live q = w.live q ∧ w'.jump q = w.jump q := by
  unfold Patching.saved Patching.addr Patching.live Patching.jump
  rw [h]
  exact ⟨rfl, rfl, rfl, rfl⟩

theorem layer_live (h : w'.layer p = { w.layer p with live := true }) : w'.saved p = w.saved p ∧
    w'.addr p = w.addr p ∧ w'.live p = true ∧ w'.jump p = w.jump p := by
  unfold Patching.saved Patching.addr Patching.live Patching.jump
  rw [h]
  exact ⟨rfl, rfl, rfl, rfl⟩

inductive Effect (alone : Bool) (w w' : Patching) : Prop
  | quiet : w'.state.mem = w.state.mem → w'.pastRead = w.pastRead →
      (∀ q, w.pastRead q = true → (w.layer q).Kept (w'.layer q)) →
      (∀ q, w'.inWindow q = true → w.inWindow q = true) → Effect alone w w'
  | read (p : Word) : w.pastRead p = false → w'.pastRead = Function.update w.pastRead p true →
      w'.inWindow = Function.update w.inWindow p true → w'.state.mem = w.state.mem →
      w'.live p = false → w'.saved p = w.state.mem (w'.addr p) → (∀ q, q ≠ p → w'.layer q = w.layer q) →
      (alone = true → ∀ q, q ≠ p → w.inWindow q = true → w.addr q ≠ w'.addr p) → Effect alone w w'
  | write (p : Word) : w.pastRead p = true → w.inWindow p = true → w'.pastRead = w.pastRead →
      (∀ q, w'.inWindow q = true → w.inWindow q = true) →
      w'.state.mem = Function.update w.state.mem (w.addr p) (w.jump p) →
      w'.layer p = { w.layer p with live := true } → (∀ q, q ≠ p → w'.layer q = w.layer q) → Effect alone w w'

/-- The calls have their stacks in mapped memory. -/
def Patching.Mapped (w : Patching) : Prop := ∀ p c, w.calls p = some c → c.env.StacksMapped

theorem Patching.flags (hc : w.calls p = some c) : w.pastRead p = c.phase.pastRead ∧
    w.inWindow p = c.phase.inWindow ∧ w.wrote p = c.phase.wrote c.env := by
  unfold Patching.pastRead Patching.inWindow Patching.wrote
  rw [hc]
  exact ⟨rfl, rfl, rfl⟩

theorem inWindow_of_advance {φ : Phase} (hc : w.calls p = some c)
    (hφ : φ.inWindow = true → c.phase.inWindow = true) (hq : (w.advance p ⟨c.env, φ⟩ s).inWindow q = true) :
    w.inWindow q = true := by
  rw [inWindow_advance] at hq
  by_cases hqp : q = p
  · subst hqp
    rw [Function.update_self] at hq
    exact (Patching.flags hc).2.1.trans (hφ hq)
  · rwa [Function.update_of_ne hqp] at hq

theorem pastRead_of_advance {φ : Phase} (hc : w.calls p = some c) (hφ : φ.pastRead = c.phase.pastRead) :
    (w.advance p ⟨c.env, φ⟩ s).pastRead = w.pastRead := by
  rw [pastRead_advance]
  exact Function.update_eq_self_iff.mpr (hφ.trans (Patching.flags hc).1.symm)

theorem effect_start (E : Env) (hnew : ∀ c, w.calls p = some c → c.phase = .refused) :
    Effect alone w (w.advance p ⟨E, .check⟩ w.state) := by
  -- a call that has been refused has not read anything
  have hold : w.pastRead p = false := by
    unfold Patching.pastRead
    cases hc : w.calls p with
    | none => rfl
    | some c => simp only [Option.any_some, hnew c hc, Phase.pastRead]
  refine .quiet rfl ?_ ?_ ?_
  · rw [pastRead_advance]
    exact Function.update_eq_self_iff.mpr hold.symm
  · intro q hq
    have hqp : q ≠ p := by
      rintro rfl
      rw [hold] at hq
      cases hq
    exact .of_eq (layer_advance_ne hqp rfl)
  · intro q hq
    rw [inWindow_advance] at hq
    by_cases hqp : q = p
    · subst hqp
      rw [Function.update_self] at hq
      cases hq
    · rwa [Function.update_of_ne hqp] at hq

theorem effect_piece {φ : Phase} (hc : w.calls p = some c) (hothers : ∀ q, q ≠ p → s.objects q = w.state.objects q)
    (hpiece : Piece c.env p w.state s c.phase φ)
    (halone : alone = true → c.phase = .read → ∀ q, q ≠ p → w.inWindow q = true → w.addr q ≠ w.addr p) :
    Effect alone w (w.advance p ⟨c.env, φ⟩ s) := by
  obtain ⟨hpast, hin, hwrote⟩ := Patching.flags hc
  have hlayer : ∀ q, q ≠ p → (w.advance p ⟨c.env, φ⟩ s).layer q = w.layer q :=
    fun q hq => layer_advance_ne hq (hothers q hq)
  have hlive : (w.advance p ⟨c.env, φ⟩ s).wrote p = φ.wrote c.env := by
    rw [wrote_advance, Function.update_self]
  generalize hphase : c.phase = phase at hpiece
  cases hpiece with
  | before h₁ h₂ hm =>
    rw [← hphase] at h₁
    refine .quiet hm (pastRead_of_advance hc (h₂.trans h₁.symm)) ?_ fun _ => inWindow_of_advance hc ?_
    · intro q hq
      have hqp : q ≠ p := by
        rintro rfl
        rw [hpast, h₁] at hq
        cases hq
      exact .of_eq (hlayer q hqp)
    · intro h
      rw [Phase.pastRead_of_inWindow h] at h₂
      cases h₂
  | read hm haddr hsaved =>
    refine .read p ?_ (pastRead_advance ..) (inWindow_advance ..) hm hlive ?_ hlayer ?_
    · rw [hpast, hphase]
      rfl
    · exact hsaved.trans (congrArg w.state.mem haddr.symm)
    · intro ha q hq hwin
      have hne := halone ha hphase q hq hwin
      exact fun e => hne (e.trans haddr)
  | keep h₁ h₂ hwr hwin hm haddr hsaved hjump =>
    rw [← hphase] at h₁ hwr hwin hjump
    refine .quiet hm (pastRead_of_advance hc (h₂.trans h₁.symm)) ?_ fun _ => inWindow_of_advance hc hwin
    intro q hq
    by_cases hqp : q = p
    · subst hqp
      exact ⟨hsaved, haddr, hlive.trans (hwr.trans hwrote.symm), fun h => hjump (hwrote.symm.trans h)⟩
    · exact .of_eq (hlayer q hqp)
  | write c' hrun hs =>
    refine .write p ?_ ?_ (pastRead_of_advance hc ?_) (fun _ => inWindow_of_advance hc ?_) ?_ ?_ hlayer
    · rw [hpast, hphase]
      rfl
    · rw [hin, hphase]
      rfl
    · rw [hphase]
      exact pastRead_afterWrite c'
    · rw [hphase]
      exact fun _ => rfl
    · rw [hs]
      rfl
    · have hl : (w.advance p ⟨c.env, .afterWrite c'⟩ s).wrote p = true := by
        rw [hlive, wrote_afterWrite, hrun, Bool.or_true]
      unfold Patching.layer
      rw [hl, hs]
      rfl

theorem effect_aside (hm : s.mem = w.state.mem)
    (ho : ∀ p, (w.calls p).isSome = true → s.objects p = w.state.objects p) : Effect alone w { w with state := s } := by
  refine .quiet hm rfl ?_ (fun _ h => h)
  intro q hq
  refine .of_eq ?_
  have hsome : (w.calls q).isSome = true := by
    unfold Patching.pastRead at hq
    cases hc : w.calls q with
    | none =>
      rw [hc] at hq
      cases hq
    | some c => rfl
  unfold Patching.layer
  rw [show (Patching.mk s w.calls).state.objects q = w.state.objects q from ho q hsome]
  rfl

theorem PatchingStep.effect (hw : w.Mapped) (h : PatchingStep alone w w') : Effect alone w w' := by
  cases h with
  | start E p _ hnew => exact effect_start E hnew
  | piece p c hc hstep halone =>
    obtain ⟨hothers, hpiece⟩ := piece_of_step (hw p c hc) hstep
    exact effect_piece hc hothers hpiece halone
  | aside s hm ho => exact effect_aside hm ho

theorem PatchingStep.mapped (hw : w.Mapped) (h : PatchingStep alone w w') : w'.Mapped := by
  have hadvance : ∀ {p : Word} {c : Call} {s : State}, c.env.StacksMapped → (w.advance p c s).Mapped := by
    intro p c s hE q c' hc'
    by_cases hq : q = p
    · subst hq
      simp only [Patching.advance, Function.update_self, Option.some.injEq] at hc'
      exact hc' ▸ hE
    · simp only [Patching.advance, Function.update_of_ne hq] at hc'
      exact hw q c' hc'
  cases h with
  | start E p hE _ => exact hadvance hE
  | piece p c hc _ _ => exact hadvance (hw p c hc)
  | aside s _ _ => exact hw

/-! ## Any interleaving -/

/-- The records whose calls have read their function, in that order. -/
structure ReadOrder (w : Patching) (order : List Word) : Prop where
  nodup : order.Nodup
  reads : ∀ p, p ∈ order ↔ w.pastRead p = true

/-- What the calls found, and what is in memory, comes from those that looked before. -/
structure Traceable (b : Word → Word) (w : Patching) (order : List Word) : Prop extends ReadOrder w order where
  grounded : Grounded w.saved w.jump w.addr w.live b order
  mem : ∀ a, Origin w.jump w.addr w.live b order a (w.state.mem a)

variable {b : Word → Word} {order : List Word}

theorem ReadOrder.same (h : ReadOrder w order) (hpast : w'.pastRead = w.pastRead) : ReadOrder w' order :=
  ⟨h.nodup, fun p => by rw [hpast]; exact h.reads p⟩

theorem ReadOrder.snoc (h : ReadOrder w order) (hp : w.pastRead p = false)
    (hpast : w'.pastRead = Function.update w.pastRead p true) : ReadOrder w' (order ++ [p]) := by
  have hnew : p ∉ order := by
    rw [h.reads p, hp]
    exact Bool.false_ne_true
  refine ⟨(List.perm_append_singleton p _).nodup_iff.mpr (List.nodup_cons.mpr ⟨hnew, h.nodup⟩), ?_⟩
  intro q
  rw [hpast, List.mem_append, List.mem_singleton, h.reads q]
  by_cases hq : q = p
  · subst hq
    simp
  · simp [hq]

theorem readOrder_nil (h₀ : ∀ p, w.calls p = none) : ReadOrder w [] :=
  ⟨List.nodup_nil, fun p => by simp [Patching.pastRead, h₀ p]⟩

theorem mapped_of_none (h₀ : ∀ p, w.calls p = none) : w.Mapped := by
  intro p c hc
  rw [h₀ p] at hc
  cases hc

theorem Traceable.step (h : Traceable b w order) (he : Effect alone w w') : ∃ order', Traceable b w' order' := by
  have hne : ∀ {p}, w.pastRead p = false → ∀ q ∈ order, q ≠ p := by
    rintro p hp q hq rfl
    rw [(h.reads q).mp hq] at hp
    cases hp
  cases he with
  | quiet hm hpast hkept _ =>
    have hlayers := fun q hq => hkept q ((h.reads q).mp hq)
    have hlive : ∀ q ∈ order, w.live q = true → w'.live q = true ∧ w'.jump q = w.jump q :=
      fun q hq hl => ⟨(hlayers q hq).live.trans hl, (hlayers q hq).jump hl⟩
    refine ⟨order, h.toReadOrder.same hpast, ?_, ?_⟩
    · exact h.grounded.mono (fun q hq => ⟨(hlayers q hq).addr, (hlayers q hq).saved⟩) hlive
    · intro a
      rw [hm]
      exact (h.mem a).mono (fun _ h => h) fun q hq hl => ⟨(hlive q hq hl).1, (hlayers q hq).addr, (hlive q hq hl).2⟩
  | read p hp hpast _ hm _ hsaved hothers _ =>
    have hlayers : ∀ q ∈ order, w'.layer q = w.layer q := fun q hq => hothers q (hne hp q hq)
    have hlive : ∀ q ∈ order, w.live q = true →
        w'.live q = true ∧ w'.addr q = w.addr q ∧ w'.jump q = w.jump q := by
      intro q hq hl
      obtain ⟨_, ha, hlq, hj⟩ := layer_eq (hlayers q hq)
      exact ⟨hlq.trans hl, ha, hj⟩
    have horigin : ∀ a, Origin w'.jump w'.addr w'.live b order a (w.state.mem a) :=
      fun a => (h.mem a).mono (fun _ h => h) hlive
    refine ⟨order ++ [p], h.toReadOrder.snoc hp hpast, grounded_snoc.mpr ⟨?_, ?_⟩, ?_⟩
    · refine h.grounded.mono (fun q hq => ?_) fun q hq hl => ⟨(hlive q hq hl).1, (hlive q hq hl).2.2⟩
      obtain ⟨hs, ha, _⟩ := layer_eq (hlayers q hq)
      exact ⟨ha, hs⟩
    · rw [hsaved]
      exact horigin _
    · intro a
      rw [hm]
      exact (horigin a).mono (fun q hq => List.mem_append_left _ hq) fun _ _ hl => ⟨hl, rfl, rfl⟩
  | write p hp _ hpast _ hm hself hothers =>
    have hlayers : ∀ q, w'.saved q = w.saved q ∧ w'.addr q = w.addr q ∧ w'.jump q = w.jump q ∧
        (w.live q = true → w'.live q = true) := by
      intro q
      by_cases hq : q = p
      · subst hq
        obtain ⟨hs, ha, hl, hj⟩ := layer_live hself
        exact ⟨hs, ha, hj, fun _ => hl⟩
      · obtain ⟨hs, ha, hl, hj⟩ := layer_eq (hothers q hq)
        exact ⟨hs, ha, hj, hl.trans⟩
    refine ⟨order, h.toReadOrder.same hpast, ?_, ?_⟩
    · exact h.grounded.mono (fun q _ => ⟨(hlayers q).2.1, (hlayers q).1⟩) fun q _ hl =>
        ⟨(hlayers q).2.2.2 hl, (hlayers q).2.2.1⟩
    · intro a
      rw [hm]
      by_cases ha : a = w.addr p
      · subst ha
        refine .inr ⟨p, (h.reads p).mpr hp, (layer_live hself).2.2.1, (hlayers p).2.1, ?_⟩
        exact (Function.update_self ..).trans (hlayers p).2.2.1.symm
      · rw [Function.update_of_ne ha]
        exact (h.mem a).mono (fun _ h => h) fun q _ hl => ⟨(hlayers q).2.2.2 hl, (hlayers q).2.1, (hlayers q).2.2.1⟩

theorem traceable_of_steps {w₀ : Patching} (h₀ : ∀ p, w₀.calls p = none)
    (hrun : Relation.ReflTransGen (PatchingStep alone) w₀ w) :
    w.Mapped ∧ ∃ order, Traceable w₀.state.mem w order := by
  induction hrun with
  | refl =>
    exact ⟨mapped_of_none h₀, [], readOrder_nil h₀, grounded_nil, fun a => .inl rfl⟩
  | tail _ step ih =>
    obtain ⟨hmapped, order, h⟩ := ih
    exact ⟨step.mapped hmapped, h.step (step.effect hmapped)⟩

/-- **What a function begins with leads to its original word.** In every state of every interleaving of any
number of calls of `PatchFunction`, the word at an address is the jump of a patch that has been written there, that
patch found the jump of another one, and so on down to the word that was there before the calls; and so does the word
that a call has found, by patches other than its own. -/
theorem originals_of_steps {w₀ : Patching} (h₀ : ∀ p, w₀.calls p = none)
    (hrun : Relation.ReflTransGen (PatchingStep alone) w₀ w) :
    (∀ a, ∃ ps : List Word, ps.Nodup ∧ (∀ p ∈ ps, w.live p = true ∧ w.addr p = a) ∧
      Chain w.saved w.jump (w₀.state.mem a) ps (w.state.mem a)) ∧
    ∀ q, w.pastRead q = true → ∃ ps : List Word, ps.Nodup ∧ q ∉ ps ∧
      (∀ p ∈ ps, w.live p = true ∧ w.addr p = w.addr q) ∧
      Chain w.saved w.jump (w₀.state.mem (w.addr q)) ps (w.saved q) := by
  obtain ⟨_, order, h⟩ := traceable_of_steps h₀ hrun
  refine ⟨?_, ?_⟩
  · intro a
    obtain ⟨ps, hsub, hc, hps⟩ := h.grounded.exists_chain (h.mem a)
    exact ⟨ps, h.nodup.sublist hsub, hps, hc⟩
  · intro q hq
    obtain ⟨xs, ys, hsplit⟩ := List.append_of_mem ((h.reads q).mpr hq)
    have hn := h.nodup
    rw [hsplit] at hn
    have hxs : Grounded w.saved w.jump w.addr w.live w₀.state.mem xs := by
      intro us x vs he
      exact h.grounded us x (vs ++ q :: ys) (by rw [hsplit, he]; simp)
    obtain ⟨ps, hsub, hc, hps⟩ := hxs.exists_chain (h.grounded xs q ys hsplit)
    have hmem : q ∉ ps := fun hm => (nodup_split hn).1 (hsub.subset hm)
    exact ⟨ps, (hn.sublist (List.sublist_append_left xs _)).sublist hsub, hmem, hps, hc⟩

/-! ## Calls that keep out of each other's way -/

/-- The jumps lie on each other in the order of the reads. A call between its read and its last write is the
last that has read its function. -/
structure Orderly (b : Word → Word) (w : Patching) (order : List Word) : Prop extends ReadOrder w order where
  stacked : Stacked w.saved w.jump w.addr w.live b order w.state.mem
  waiting : ∀ p ∈ order, w.inWindow p = true → w.live p = false → w.saved p = w.state.mem (w.addr p)
  shown : ∀ p ∈ order, w.inWindow p = true → w.live p = true → w.state.mem (w.addr p) = w.jump p
  last : ∀ xs p ys, order = xs ++ p :: ys → w.inWindow p = true → ∀ q ∈ ys, w.addr q ≠ w.addr p

theorem Orderly.apart (h : Orderly b w order) (hp : p ∈ order) (hq : q ∈ order) (hne : q ≠ p)
    (hwp : w.inWindow p = true) (hwq : w.inWindow q = true) : w.addr q ≠ w.addr p := by
  obtain ⟨xs, ys, hsplit⟩ := List.append_of_mem hp
  rw [hsplit, List.mem_append, List.mem_cons] at hq
  rcases hq with hq | hq | hq
  · obtain ⟨us, vs, rfl⟩ := List.append_of_mem hq
    have hearlier := h.last us q (vs ++ p :: ys) (by rw [hsplit]; simp) hwq p (by simp)
    exact hearlier.symm
  · exact absurd hq hne
  · exact h.last xs p ys hsplit hwp q hq

/-- The first write of a call lays its jump, the later ones write it again. -/
theorem Orderly.stacked_write {xs ys : List Word} (h : Orderly b w order) (hsplit : order = xs ++ p :: ys)
    (hwp : w.inWindow p = true) (hself : w'.layer p = { w.layer p with live := true })
    (hothers : ∀ q, q ≠ p → w'.layer q = w.layer q) : Stacked w'.saved w'.jump w'.addr w'.live b order
      (Function.update w.state.mem (w.addr p) (w.jump p)) := by
  have hmem : p ∈ order := by simp [hsplit]
  have hn := h.nodup
  rw [hsplit] at hn
  have hmap : ∀ zs : List Word, p ∉ zs → zs.map w'.layer = zs.map w.layer := fun zs hzs =>
    List.map_congr_left fun q hq => hothers q fun e => hzs (e ▸ hq)
  have hs : Stacked Layer.saved Layer.jump Layer.addr Layer.live b (order.map w.layer) w.state.mem :=
    (stacked_map w.layer order).mpr h.stacked
  suffices hmapped : Stacked Layer.saved Layer.jump Layer.addr Layer.live b (order.map w'.layer)
      (Function.update w.state.mem (w.addr p) (w.jump p)) from (stacked_map w'.layer order).mp hmapped
  rw [hsplit, List.map_append, List.map_cons] at hs ⊢
  rw [hmap xs (nodup_split hn).1, hmap ys (nodup_split hn).2]
  cases hlive : (w.layer p).live with
  | false =>
    rw [hself]
    refine hs.push hlive rfl (h.waiting p hmem hwp hlive) ?_
    intro l hl _
    obtain ⟨q, hq, rfl⟩ := List.mem_map.mp hl
    exact h.last xs p ys hsplit hwp q hq
  | true =>
    have hsame : w'.layer p = w.layer p := by rw [hself, ← hlive]
    have hagain : Function.update w.state.mem (w.addr p) (w.jump p) = w.state.mem :=
      Function.update_eq_self_iff.mpr (h.shown p hmem hwp hlive).symm
    rw [hsame, hagain]
    exact hs

theorem Orderly.quiet (h : Orderly b w order) (hm : w'.state.mem = w.state.mem) (hpast : w'.pastRead = w.pastRead)
    (hkept : ∀ q, w.pastRead q = true → (w.layer q).Kept (w'.layer q))
    (hwindow : ∀ q, w'.inWindow q = true → w.inWindow q = true) : Orderly b w' order := by
  have hlayers := fun q hq => hkept q ((h.reads q).mp hq)
  refine ⟨h.toReadOrder.same hpast, ?_, ?_, ?_, ?_⟩
  · rw [hm]
    refine h.stacked.congr fun q hq => ?_
    exact ⟨(hlayers q hq).saved, (hlayers q hq).addr, (hlayers q hq).live, (hlayers q hq).jump⟩
  · intro q hq hw hl
    have hk := hlayers q hq
    rw [hm]
    exact (hk.saved.trans (h.waiting q hq (hwindow q hw) (hk.live.symm.trans hl))).trans
      (congrArg w.state.mem hk.addr.symm)
  · intro q hq hw hl
    have hk := hlayers q hq
    have hl : w.live q = true := hk.live.symm.trans hl
    rw [hm]
    exact (congrArg w.state.mem hk.addr).trans ((h.shown q hq (hwindow q hw) hl).trans (hk.jump hl).symm)
  · intro xs p ys hsplit hw q hq
    have hp := (hlayers p (by simp [hsplit])).addr
    have hq' := (hlayers q (by simp [hsplit, hq])).addr
    have hne := h.last xs p ys hsplit (hwindow p hw) q hq
    exact fun e => hne (hq'.symm.trans (e.trans hp))

/-- A call that reads comes last. -/
theorem Orderly.read (h : Orderly b w order) (hp : w.pastRead p = false)
    (hpast : w'.pastRead = Function.update w.pastRead p true)
    (hwindow : w'.inWindow = Function.update w.inWindow p true) (hm : w'.state.mem = w.state.mem)
    (hdead : w'.live p = false) (hsaved : w'.saved p = w.state.mem (w'.addr p))
    (hothers : ∀ q, q ≠ p → w'.layer q = w.layer q)
    (halone : ∀ q, q ≠ p → w.inWindow q = true → w.addr q ≠ w'.addr p) : Orderly b w' (order ++ [p]) := by
  have hlayers : ∀ q ∈ order, q ≠ p ∧ w'.saved q = w.saved q ∧ w'.addr q = w.addr q ∧ w'.live q = w.live q ∧
      w'.jump q = w.jump q := by
    intro q hq
    have hne : q ≠ p := by
      rintro rfl
      rw [(h.reads q).mp hq] at hp
      cases hp
    exact ⟨hne, layer_eq (hothers q hne)⟩
  have hwin : ∀ q, q ≠ p → w'.inWindow q = true → w.inWindow q = true := by
    intro q hq hw
    rwa [hwindow, Function.update_of_ne hq] at hw
  refine ⟨h.toReadOrder.snoc hp hpast, ?_, ?_, ?_, ?_⟩
  · rw [hm]
    refine (stacked_snoc_dead hdead).mpr (h.stacked.congr fun q hq => ?_)
    obtain ⟨_, hs, ha, hl, hj⟩ := hlayers q hq
    exact ⟨hs, ha, hl, fun _ => hj⟩
  · intro q hq hw hl
    rw [hm]
    rcases List.mem_append.mp hq with hq | hq
    · obtain ⟨hne, hs, ha, hlive, _⟩ := hlayers q hq
      rw [hs, ha]
      exact h.waiting q hq (hwin q hne hw) (hlive.symm.trans hl)
    · rw [List.mem_singleton.mp hq]
      exact hsaved
  · intro q hq hw hl
    rw [hm]
    rcases List.mem_append.mp hq with hq | hq
    · obtain ⟨hne, _, ha, hlive, hj⟩ := hlayers q hq
      rw [ha, hj]
      exact h.shown q hq (hwin q hne hw) (hlive.symm.trans hl)
    · rw [List.mem_singleton.mp hq, hdead] at hl
      cases hl
  · intro xs q ys hsplit hw r hr
    rcases List.eq_nil_or_concat ys with rfl | ⟨zs, z, rfl⟩
    · cases hr
    rw [List.concat_eq_append] at hsplit hr
    rw [← List.cons_append, ← List.append_assoc] at hsplit
    obtain ⟨horder, hz⟩ := List.append_inj' hsplit rfl
    have hz : z = p := (List.singleton_inj.mp hz).symm
    obtain ⟨hne, _, hq, _⟩ := hlayers q (by simp [horder])
    have hwq := hwin q hne hw
    rw [hq]
    rcases List.mem_append.mp hr with hr | hr
    · rw [(hlayers r (by simp [horder, hr])).2.2.1]
      exact h.last xs q zs horder hwq r hr
    · rw [List.mem_singleton.mp hr, hz]
      exact (halone q hne hwq).symm

theorem Orderly.write (h : Orderly b w order) (hp : w.pastRead p = true) (hwp : w.inWindow p = true)
    (hpast : w'.pastRead = w.pastRead) (hwindow : ∀ q, w'.inWindow q = true → w.inWindow q = true)
    (hm : w'.state.mem = Function.update w.state.mem (w.addr p) (w.jump p))
    (hself : w'.layer p = { w.layer p with live := true }) (hothers : ∀ q, q ≠ p → w'.layer q = w.layer q) :
    Orderly b w' order := by
  have hmem : p ∈ order := (h.reads p).mpr hp
  obtain ⟨hsaved, haddr, hlive, hjump⟩ := layer_live hself
  have haddrs : ∀ q, w'.addr q = w.addr q := by
    intro q
    by_cases hq : q = p
    · rw [hq, haddr]
    · exact (layer_eq (hothers q hq)).2.1
  refine ⟨h.toReadOrder.same hpast, ?_, ?_, ?_, ?_⟩
  · obtain ⟨xs, ys, hsplit⟩ := List.append_of_mem hmem
    rw [hm]
    exact h.stacked_write hsplit hwp hself hothers
  · intro q hq hw hl
    have hqp : q ≠ p := by
      rintro rfl
      rw [hlive] at hl
      cases hl
    obtain ⟨hs, _, hlq, _⟩ := layer_eq (hothers q hqp)
    rw [haddrs, hm, hs, Function.update_of_ne (h.apart hmem hq hqp hwp (hwindow q hw))]
    exact h.waiting q hq (hwindow q hw) (hlq.symm.trans hl)
  · intro q hq hw hl
    rw [haddrs, hm]
    by_cases hqp : q = p
    · subst hqp
      rw [hjump]
      exact Function.update_self ..
    · obtain ⟨_, _, hlq, hj⟩ := layer_eq (hothers q hqp)
      rw [hj, Function.update_of_ne (h.apart hmem hq hqp hwp (hwindow q hw))]
      exact h.shown q hq (hwindow q hw) (hlq.symm.trans hl)
  · intro xs q ys hsplit hw r hr
    rw [haddrs, haddrs]
    exact h.last xs q ys hsplit (hwindow q hw) r hr

theorem Orderly.step (h : Orderly b w order) (he : Effect true w w') : ∃ order', Orderly b w' order' := by
  cases he with
  | quiet hm hpast hkept hwindow => exact ⟨order, h.quiet hm hpast hkept hwindow⟩
  | read p hp hpast hwindow hm hdead hsaved hothers halone =>
    exact ⟨order ++ [p], h.read hp hpast hwindow hm hdead hsaved hothers (halone rfl)⟩
  | write p hp hwp hpast hwindow hm hself hothers =>
    exact ⟨order, h.write hp hwp hpast hwindow hm hself hothers⟩

theorem orderly_of_steps {w₀ : Patching} (h₀ : ∀ p, w₀.calls p = none)
    (hrun : Relation.ReflTransGen (PatchingStep true) w₀ w) :
    w.Mapped ∧ ∃ order, Orderly w₀.state.mem w order := by
  induction hrun with
  | refl =>
    refine ⟨mapped_of_none h₀, [], readOrder_nil h₀, stacked_nil, ?_, ?_, ?_⟩
    · simp
    · simp
    · simp
  | tail _ step ih =>
    obtain ⟨hmapped, order, h⟩ := ih
    exact ⟨step.mapped hmapped, h.step (step.effect hmapped)⟩

/-- **No patch is lost.** In every state of every interleaving in which a call reads a function only while no other
call is between its read and its last write there, the jumps that have been written at an address lie on each other in
the order of the reads, on the word that was there before the calls, and every record that has been applied is one of
them. -/
theorem noneLost_of_steps {w₀ : Patching} (h₀ : ∀ p, w₀.calls p = none)
    (hrun : Relation.ReflTransGen (PatchingStep true) w₀ w) :
    ∃ order : List Word, order.Nodup ∧ (∀ p, p ∈ order ↔ w.pastRead p = true) ∧
      (∀ a, Chain w.saved w.jump (w₀.state.mem a) (layersAt w.addr w.live order a) (w.state.mem a)) ∧
      ∀ p c, w.calls p = some c → c.phase = .applied → c.env.Writes →
        p ∈ layersAt w.addr w.live order (w.addr p) := by
  obtain ⟨_, order, h⟩ := orderly_of_steps h₀ hrun
  refine ⟨order, h.nodup, h.reads, h.stacked, ?_⟩
  intro p c hc hphase hwrites
  obtain ⟨hpast, _, hwrote⟩ := Patching.flags hc
  rw [hphase] at hpast hwrote
  refine mem_layersAt.mpr ⟨(h.reads p).mpr hpast, hwrote.trans ?_, rfl⟩
  obtain ⟨core, hthread, hstack⟩ := hwrites.runs
  have hruns : c.env.runs core = true := by simp [Env.runs, hthread, hstack]
  cases core <;> simp [Phase.wrote, hruns]

end

/-! ## Two calls -/

/-- The call for `p` may go on: when it is about to read alone, none of the calls for `ps` is between its read
and its last write. -/
def Patching.clear (w : Patching) (alone : Bool) (ps : List Word) (p : Word) (φ : Phase) : Bool :=
  match alone, φ with
  | true, .read => ps.all fun q => q == p || !w.inWindow q
  | _, _ => true

/-- The next piece of the call for `p`, one of the calls for `ps`. -/
def Patching.piece (w : Patching) (alone : Bool) (ps : List Word) (p : Word) : Option Patching :=
  match w.calls p with
  | none => none
  | some c =>
    match w.clear alone ps p c.phase with
    | false => none
    | true =>
      match c.phase.step c.env p w.state with
      | .error _ => none
      | .ok (φ, s) => some (w.advance p ⟨c.env, φ⟩ s)

def Patching.pieces (alone : Bool) (ps : List Word) : Patching → List Word → Option Patching
  | w, [] => some w
  | w, p :: rest =>
    match w.piece alone ps p with
    | none => none
    | some w => pieces alone ps w rest

section
variable {alone : Bool} {w w' : Patching} {ps schedule : List Word} {p q : Word}

theorem inWindow_of_clear (hps : ∀ q, q ∉ ps → w.calls q = none) (h : w.clear true ps p .read = true)
    (hq : q ≠ p) : w.inWindow q = false := by
  by_cases hqps : q ∈ ps
  · have hall : (q == p || !w.inWindow q) = true := List.all_eq_true.mp h q hqps
    simpa [hq] using hall
  · unfold Patching.inWindow
    rw [hps q hqps]
    rfl

theorem piece_step (hps : ∀ q, q ∉ ps → w.calls q = none) (h : w.piece alone ps p = some w') :
    PatchingStep alone w w' ∧ ∀ q, q ∉ ps → w'.calls q = none := by
  unfold Patching.piece at h
  split at h
  · cases h
  rename_i c hc
  split at h
  · cases h
  rename_i hclear
  split at h
  · cases h
  rename_i φ s hstep
  cases h
  refine ⟨.piece p c hc hstep ?_, ?_⟩
  · intro ha hread q hq hwin
    rw [ha, hread] at hclear
    rw [inWindow_of_clear hps hclear hq] at hwin
    cases hwin
  · intro q hq
    have hne : q ≠ p := by
      rintro rfl
      rw [hps q hq] at hc
      cases hc
    exact (Function.update_of_ne hne ..).trans (hps q hq)

theorem pieces_steps (hps : ∀ q, q ∉ ps → w.calls q = none)
    (h : Patching.pieces alone ps w schedule = some w') : Relation.ReflTransGen (PatchingStep alone) w w' := by
  induction schedule generalizing w with
  | nil =>
    cases h
    exact .refl
  | cons p rest ih =>
    rw [Patching.pieces] at h
    cases hpiece : w.piece alone ps p with
    | none =>
      rw [hpiece] at h
      cases h
    | some w₁ =>
      rw [hpiece] at h
      obtain ⟨hstep, hothers⟩ := piece_step hps hpiece
      exact .head hstep (ih hothers h)

end

/-- Two records for one function, made but not applied. -/
def madeTwo : Patching where
  state := (makeSharedV2 (plainEnv 0x20 false)
    (makeSharedV2 (plainEnv 0x10 false) (plainState 0x7c0802a6) (plainData .other 0x02000400 0x1000 .all).v2).2
    (plainData .other 0x02000400 0x2000 .all).v2).2
  calls := fun _ => none

def calledTwo : Patching :=
  (madeTwo.advance 0x10 ⟨plainEnv 0 false, .check⟩ madeTwo.state).advance 0x20 ⟨plainEnv 0 false, .check⟩
    madeTwo.state

theorem plainEnv_stacksMapped (p : Word) (loaded : Bool) : (plainEnv p loaded).StacksMapped :=
  (plainEnv_writes p loaded).mapped

theorem calledTwo_steps (alone : Bool) : Relation.ReflTransGen (PatchingStep alone) madeTwo calledTwo := by
  have h₁ : PatchingStep alone madeTwo (madeTwo.advance 0x10 ⟨plainEnv 0 false, .check⟩ madeTwo.state) :=
    .start _ _ (plainEnv_stacksMapped _ _) (fun c hc => by cases hc)
  have h₂ : PatchingStep alone (madeTwo.advance 0x10 ⟨plainEnv 0 false, .check⟩ madeTwo.state) calledTwo := by
    refine .start _ _ (plainEnv_stacksMapped _ _) (fun c hc => ?_)
    have hne : (0x20 : Word) ≠ 0x10 := by decide
    have hnone : (madeTwo.advance 0x10 ⟨plainEnv 0 false, .check⟩ madeTwo.state).calls 0x20 = none :=
      Function.update_of_ne hne (some ⟨plainEnv 0 false, .check⟩) madeTwo.calls
    rw [hnone] at hc
    cases hc
  exact .head h₁ (.single h₂)

theorem calledTwo_others : ∀ q, q ∉ [(0x10 : Word), 0x20] → calledTwo.calls q = none := by
  intro q hq
  rw [List.mem_cons, List.mem_singleton, not_or] at hq
  exact (Function.update_of_ne hq.2 ..).trans (Function.update_of_ne hq.1 ..)

def afterPieces (alone : Bool) (schedule : List Word) : Patching :=
  (Patching.pieces alone [0x10, 0x20] calledTwo schedule).getD calledTwo

theorem afterPieces_steps {alone : Bool} {schedule : List Word}
    (h : (Patching.pieces alone [0x10, 0x20] calledTwo schedule).isSome = true) :
    Relation.ReflTransGen (PatchingStep alone) madeTwo (afterPieces alone schedule) :=
  (calledTwo_steps alone).trans (pieces_steps calledTwo_others
    (Option.getD_of_ne_none (Option.isSome_iff_ne_none.mp h) _).symm)

/-- Both calls read before either writes. -/
def raced : Patching := afterPieces false (List.replicate 9 [(0x10 : Word), 0x20]).flatten

/-- The second call reads after the last write of the first. -/
def unraced : Patching :=
  afterPieces true ([0x10, 0x20, 0x10, 0x20] ++ List.replicate 7 (0x10 : Word) ++ List.replicate 7 (0x20 : Word))

theorem madeTwo_mem : madeTwo.state.mem 0x02000400 = 0x7c0802a6 := by decide +kernel

theorem raced_steps : Relation.ReflTransGen (PatchingStep false) madeTwo raced := by
  unfold raced
  exact afterPieces_steps (by decide +kernel)

theorem unraced_steps : Relation.ReflTransGen (PatchingStep true) madeTwo unraced := by
  unfold unraced
  exact afterPieces_steps (by decide +kernel)

/-- Both patches have been written, and neither knows of the other. -/
theorem originals_of_steps_raced : raced.live 0x10 = true ∧ raced.live 0x20 = true ∧
    raced.saved 0x10 = 0x7c0802a6 ∧ raced.saved 0x20 = 0x7c0802a6 ∧
    ∃ ps : List Word, ps.Nodup ∧ (∀ p ∈ ps, raced.live p = true ∧ raced.addr p = 0x02000400) ∧
      Chain raced.saved raced.jump 0x7c0802a6 ps (raced.state.mem 0x02000400) := by
  refine ⟨by decide +kernel, by decide +kernel, by decide +kernel, by decide +kernel, ?_⟩
  have h := (originals_of_steps (fun _ => rfl) raced_steps).1 0x02000400
  rwa [madeTwo_mem] at h

theorem noneLost_of_steps_unraced : ∃ order : List Word, order.Nodup ∧
    (0x10 ∈ layersAt unraced.addr unraced.live order 0x02000400) ∧
    (0x20 ∈ layersAt unraced.addr unraced.live order 0x02000400) ∧
    Chain unraced.saved unraced.jump 0x7c0802a6 (layersAt unraced.addr unraced.live order 0x02000400)
      (unraced.state.mem 0x02000400) := by
  obtain ⟨order, hn, hreads, hchain, _⟩ := noneLost_of_steps (fun _ => rfl) unraced_steps
  have h := hchain 0x02000400
  rw [madeTwo_mem] at h
  refine ⟨order, hn, mem_layersAt.mpr ⟨(hreads 0x10).mpr ?_, ?_, ?_⟩,
    mem_layersAt.mpr ⟨(hreads 0x20).mpr ?_, ?_, ?_⟩, h⟩ <;> decide +kernel

end FunctionPatcher
