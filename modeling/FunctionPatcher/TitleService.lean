import FunctionPatcher.CacheFilling

/-!
# Handles of the title service

`shouldBePatched` opens the title service for every record of an executable of
the current title. It closes the handle before it looks at the result, and once
more behind the check that the version was found.
-/

namespace FunctionPatcher

/-! ## The discipline -/

/-- Every handle is closed exactly once before the next is opened, and none is closed that is not
open; `held` is the handle that is open now. -/
def ReleasedOnce : Option Word → List McpCall → Prop
  | held, [] => held = none
  | none, .mcpOpen h :: calls => ReleasedOnce (some h) calls
  | some h, .mcpClose h' :: calls => h' = h ∧ ReleasedOnce none calls
  | none, .mcpClose _ :: _ => False
  | some _, .mcpOpen _ :: _ => False

/-! ## The calls -/

/-- The version that `MCP_GetTitleInfo` finds for the update, else for the base title. -/
def titleVersion (E : Env) : Option (BitVec 16) :=
  let updateInfo :=
    if E.osGetTitleID &&& 0x0000000F00000000 = 0 then
      E.mcpGetTitleInfo E.mcpOpen (E.osGetTitleID ||| 0x0000000E00000000)
    else none
  match updateInfo with
  | some titleVersion => some titleVersion
  | none => E.mcpGetTitleInfo E.mcpOpen E.osGetTitleID

/-- `shouldBePatched` with the calls it has made in order, which an `OSFatal` leaves as they are. `MCP_Open` is
taken to return an open handle. -/
def shouldBePatchedTraced (E : Env) (r : PatchedFunctionData) : List McpCall × Except String Bool :=
  if r.isForExecutable then
    if E.osGetTitleID ∉ r.titleIds then ([], .ok false)
    else
      let calls := [.mcpOpen E.mcpOpen]
      let info := titleVersion E
      let calls := calls ++ [.mcpClose E.mcpOpen]
      match info with
      | none =>
        (calls, .error "Failed to get title version. This should not happen.\nPlease report this with a crash log.")
      | some titleVersion =>
        let calls := calls ++ [.mcpClose E.mcpOpen]
        (calls, .ok (!(titleVersion < r.titleVersionMin || r.titleVersionMax < titleVersion)))
  else ([], .ok true)

/-- The calls of `shouldBePatched` in order, also where it ends in `OSFatal`. -/
def titleCalls (E : Env) (r : PatchedFunctionData) : List McpCall :=
  if r.isForExecutable then
    if E.osGetTitleID ∉ r.titleIds then []
    else
      match titleVersion E with
      | none => [.mcpOpen E.mcpOpen, .mcpClose E.mcpOpen]
      | some _ => [.mcpOpen E.mcpOpen, .mcpClose E.mcpOpen, .mcpClose E.mcpOpen]
  else []

def patchCalls (E : Env) (s : State) (p : Word) : List McpCall :=
  if (s.objects p).isPatched then [] else titleCalls E (s.objects p)

/-- `PatchFunction` on one record after another, each in the environment it meets. -/
def process : State → List (Env × Word) → Except String State
  | s, [] => .ok s
  | s, (E, p) :: rest =>
    match patchFunction E s p with
    | .error e => .error e
    | .ok (_, s) => process s rest

def processCalls : State → List (Env × Word) → List McpCall
  | _, [] => []
  | s, (E, p) :: rest =>
    patchCalls E s p ++
      match patchFunction E s p with
      | .error _ => []
      | .ok (_, s) => processCalls s rest

section
variable {E : Env} {s s' : State} {p : Word} {b : Bool} {r : PatchedFunctionData}

theorem shouldBePatched_title (hx : r.isForExecutable = true) (ht : E.osGetTitleID ∈ r.titleIds) :
    shouldBePatched E s r =
      match titleVersion E with
      | none => .error "Failed to get title version. This should not happen.\nPlease report this with a crash log."
      | some titleVersion => .ok (!(titleVersion < r.titleVersionMin || r.titleVersionMax < titleVersion),
          { s with mcpCalls := .mcpClose E.mcpOpen :: .mcpClose E.mcpOpen :: .mcpOpen E.mcpOpen :: s.mcpCalls }) := by
  unfold shouldBePatched
  rw [if_pos hx]
  simp only
  rw [if_neg (not_not.mpr ht)]
  rfl

/-- The trace is that of `shouldBePatched`: it has its result, and its calls where the state is kept. -/
theorem shouldBePatched_traced (E : Env) (s : State) (r : PatchedFunctionData) :
    shouldBePatched E s r = (shouldBePatchedTraced E r).2.map fun b =>
      (b, { s with mcpCalls := (shouldBePatchedTraced E r).1.reverse ++ s.mcpCalls }) := by
  unfold shouldBePatchedTraced
  by_cases hx : r.isForExecutable = true
  · by_cases ht : E.osGetTitleID ∈ r.titleIds
    · rw [shouldBePatched_title hx ht, if_pos hx, if_neg (not_not.mpr ht)]
      cases titleVersion E with
      | none => rfl
      | some v => rfl
    · unfold shouldBePatched
      rw [if_pos hx, if_pos hx, if_pos ht]
      simp only [if_pos ht]
      rfl
  · rw [shouldBePatched_byLibrary (by simpa using hx), if_neg hx]
    rfl

theorem titleCalls_traced (E : Env) (r : PatchedFunctionData) : titleCalls E r = (shouldBePatchedTraced E r).1 := by
  unfold titleCalls shouldBePatchedTraced
  split
  · split
    · rfl
    · cases titleVersion E with
      | none => rfl
      | some v => rfl
  · rfl

theorem shouldBePatched_calls (h : shouldBePatched E s r = .ok (b, s')) :
    s' = { s with mcpCalls := (titleCalls E r).reverse ++ s.mcpCalls } := by
  rw [shouldBePatched_traced] at h
  rw [titleCalls_traced]
  cases hres : (shouldBePatchedTraced E r).2 with
  | error e =>
    rw [hres] at h
    cases h
  | ok b' =>
    rw [hres] at h
    cases h
    rfl

theorem patchFunction_calls (h : patchFunction E s p = .ok (b, s')) :
    s'.mcpCalls = (patchCalls E s p).reverse ++ s.mcpCalls := by
  have hcalls : (s.objects p).isPatched = false → patchCalls E s p = titleCalls E (s.objects p) := by
    intro hp
    unfold patchCalls
    rw [hp, if_neg Bool.false_ne_true]
  rcases patchFunction_branches h with ⟨hp, _, rfl⟩ | ⟨hp, _, h₁⟩ | ⟨hp, _, s₁, h₁, h₂⟩ | ⟨hp, s₁, s₂, h₁, h₂, h⟩
  · unfold patchCalls
    rw [hp, if_pos rfl]
    rfl
  · rw [hcalls hp, shouldBePatched_calls h₁]
  · obtain ⟨P, ⟨_, rfl⟩ | ⟨hb, _⟩⟩ := updateFunctionAddresses_ok h₂
    · rw [hcalls hp, shouldBePatched_calls h₁]
    · cases hb
  · obtain ⟨P, ⟨hb, _⟩ | ⟨_, effective, physical, _, rfl⟩⟩ := updateFunctionAddresses_ok h₂
    · cases hb
    · obtain ⟨_, _, _, w, _, rfl⟩ := applyPatch_ok h
      rw [hcalls hp, shouldBePatched_calls h₁]
      rfl

theorem process_calls {ps : List (Env × Word)} (h : process s ps = .ok s') :
    s'.mcpCalls = (processCalls s ps).reverse ++ s.mcpCalls := by
  induction ps generalizing s with
  | nil =>
    cases h
    rfl
  | cons x ps ih =>
    obtain ⟨E, p⟩ := x
    rw [process] at h
    rw [processCalls]
    cases hp : patchFunction E s p with
    | error e =>
      rw [hp] at h
      cases h
    | ok r =>
      rw [hp] at h
      simp [ih h, patchFunction_calls hp]

theorem process_forEach (E : Env) (ps : List Word) (s : State) :
    process s (ps.map fun p => (E, p)) = forEach (patchFunction E) s ps := by
  induction ps generalizing s with
  | nil => rfl
  | cons p ps ih =>
    rw [List.map_cons, process, forEach]
    cases patchFunction E s p with
    | error e => rfl
    | ok r => exact ih r.2

/-! ## Which runs keep the discipline -/

/-- The record is tried, it is one of an executable of the current title, and the version is found. -/
def FindsVersion (E : Env) (r : PatchedFunctionData) : Prop :=
  r.isPatched = false ∧ r.isForExecutable = true ∧ E.osGetTitleID ∈ r.titleIds ∧ titleVersion E ≠ none

/-- One record: no call, or one handle closed twice where the version is found, or the last calls of
a run that ends in `OSFatal`. -/
theorem patchCalls_cases (E : Env) (s : State) (p : Word) :
    (patchCalls E s p = [] ∧ ¬ FindsVersion E (s.objects p)) ∨
    (patchCalls E s p = [.mcpOpen E.mcpOpen, .mcpClose E.mcpOpen, .mcpClose E.mcpOpen] ∧
      FindsVersion E (s.objects p)) ∨
    (patchCalls E s p = [.mcpOpen E.mcpOpen, .mcpClose E.mcpOpen] ∧ ¬ FindsVersion E (s.objects p) ∧
      ∃ e, patchFunction E s p = .error e) := by
  unfold patchCalls
  by_cases hp : (s.objects p).isPatched = true
  · left
    rw [if_pos hp]
    refine ⟨rfl, fun h => ?_⟩
    rw [h.1] at hp
    cases hp
  rw [if_neg hp]
  have hun : (s.objects p).isPatched = false := by simpa using hp
  unfold titleCalls
  by_cases hx : (s.objects p).isForExecutable = true
  · rw [if_pos hx]
    by_cases ht : E.osGetTitleID ∈ (s.objects p).titleIds
    · rw [if_neg (not_not.mpr ht)]
      right
      cases hv : titleVersion E with
      | some v =>
        left
        refine ⟨rfl, hun, hx, ht, ?_⟩
        rw [hv]
        exact Option.some_ne_none v
      | none =>
        right
        refine ⟨rfl, fun h => h.2.2.2 hv, ?_⟩
        unfold patchFunction
        rw [if_neg hp, shouldBePatched_title hx ht, hv]
        exact ⟨_, rfl⟩
    · left
      rw [if_pos ht]
      exact ⟨rfl, fun h => ht h.2.2.1⟩
  · left
    rw [if_neg hx]
    exact ⟨rfl, fun h => hx h.2.1⟩

theorem findsVersion_cons {ps : List (Env × Word)} :
    (∀ pre E' p' post t, (E, p) :: ps = pre ++ (E', p') :: post → process s pre = .ok t →
        ¬ FindsVersion E' (t.objects p')) ↔
      ¬ FindsVersion E (s.objects p) ∧ ∀ b s₁, patchFunction E s p = .ok (b, s₁) →
        ∀ pre E' p' post t, ps = pre ++ (E', p') :: post → process s₁ pre = .ok t →
          ¬ FindsVersion E' (t.objects p') := by
  constructor
  · intro h
    refine ⟨h [] E p ps s rfl rfl, ?_⟩
    intro b s₁ hp pre E' p' post t hps hrun
    apply h ((E, p) :: pre) E' p' post t (by rw [hps]; rfl)
    rw [process, hp]
    exact hrun
  · intro ⟨hfirst, hrest⟩ pre E' p' post t hps hrun
    cases pre with
    | nil =>
      cases hps
      cases hrun
      exact hfirst
    | cons x pre =>
      cases hps
      rw [process] at hrun
      split at hrun
      · cases hrun
      · rename_i b s₁ hp
        exact hrest b s₁ hp pre E' p' post t rfl hrun

theorem releasedOnce_processCalls_iff (ps : List (Env × Word)) (s : State) :
    ReleasedOnce none (processCalls s ps) ↔
      ∀ pre E p post t, ps = pre ++ (E, p) :: post → process s pre = .ok t → ¬ FindsVersion E (t.objects p) := by
  induction ps generalizing s with
  | nil =>
    refine iff_of_true rfl ?_
    intro pre E p post t h
    simp at h
  | cons x ps ih =>
    obtain ⟨E, p⟩ := x
    rw [findsVersion_cons, processCalls]
    rcases patchCalls_cases E s p with ⟨hnone, hnot⟩ | ⟨htwice, hfinds⟩ | ⟨honce, hnot, e, he⟩
    · rw [hnone, List.nil_append]
      cases hp : patchFunction E s p with
      | error e =>
        refine iff_of_true rfl ⟨hnot, ?_⟩
        intro b s₁ h
        cases h
      | ok r =>
        rw [ih r.2]
        constructor
        · intro h
          refine ⟨hnot, ?_⟩
          intro b s₁ h'
          cases h'
          exact h
        · intro h
          exact h.2 r.1 r.2 rfl
    · rw [htwice]
      apply iff_of_false
      · intro h
        exact h.2
      · intro h
        exact h.1 hfinds
    · rw [honce, he]
      refine iff_of_true ⟨rfl, rfl⟩ ⟨hnot, ?_⟩
      intro b s₁ h
      cases h

end

/-- **Handles of the title service.** In a run of `PatchFunction` over any records, every handle is
closed exactly once and only while it is open if and only if no record is tried whose version is
found. The calls are those of `shouldBePatched`, also where it ends in `OSFatal`. -/
theorem titleHandles_releasedOnce_iff (s : State) (ps : List (Env × Word)) :
    (∀ s', process s ps = .ok s' → s'.mcpCalls = (processCalls s ps).reverse ++ s.mcpCalls) ∧
    (∀ E qs, process s (qs.map fun p => (E, p)) = forEach (patchFunction E) s qs) ∧
    (∀ E t r, titleCalls E r = (shouldBePatchedTraced E r).1 ∧ shouldBePatched E t r =
      (shouldBePatchedTraced E r).2.map fun b => (b, { t with mcpCalls := (titleCalls E r).reverse ++ t.mcpCalls })) ∧
    (ReleasedOnce none (processCalls s ps) ↔
      ∀ pre E p post t, ps = pre ++ (E, p) :: post → process s pre = .ok t → ¬ FindsVersion E (t.objects p)) := by
  refine ⟨?_, ?_, ?_, releasedOnce_processCalls_iff ps s⟩
  · intro s' h
    exact process_calls h
  · intro E qs
    exact process_forEach E qs s
  · intro E t r
    rw [titleCalls_traced]
    exact ⟨rfl, shouldBePatched_traced E t r⟩

/-- A record of an executable of the title that runs. -/
def titleWaiting : State :=
  allocated (plainEnv 0x10 true) (plainState 0x7c0802a6)
    { plainData .other 0 0x1000 .all with
      version := 3
      v3 := ⟨.replaceForExecutableByName, 0, 0, 0x1000, 0x3000, .all, ⟨.other, ""⟩,
        ⟨[0], 0, 0xFFFF, "game.rpx", 0, "f"⟩⟩ }

theorem titleWaiting_closed_twice :
    (process titleWaiting [(plainEnv 0 true, 0x10)]).isOk = true ∧
    processCalls titleWaiting [(plainEnv 0 true, 0x10)] = [.mcpOpen 1, .mcpClose 1, .mcpClose 1] ∧
    ¬ ReleasedOnce none (processCalls titleWaiting [(plainEnv 0 true, 0x10)]) := by
  have hcalls : processCalls titleWaiting [(plainEnv 0 true, 0x10)] = [.mcpOpen 1, .mcpClose 1, .mcpClose 1] := by
    decide +kernel
  refine ⟨by decide +kernel, hcalls, fun h => ?_⟩
  rw [hcalls] at h
  exact h.2

end FunctionPatcher
