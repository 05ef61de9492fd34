import FunctionPatcher.Ledger
import FunctionPatcher.Measured
import FunctionPatcher.Runs

/-!
# The threads (`utils/CThread.h`)

`runOnAllCores` and the thread of each core, step by step: the thread that calls
it allocates, creates, resumes, joins and frees, and the created thread runs its
callback in between. Every interleaving amounts to the callbacks one after the
other.
-/

namespace FunctionPatcher

/-! ## The system -/

/-- A thread that `OSCreateThread` has made, with what is left of its callback. -/
inductive OSThread (σ : Type) where
  | suspended (body : List (σ → σ))
  | running (body : List (σ → σ))
  | terminated

structure DefaultHeap where
  blocks : List Word
  calls : List (Ledger.Call Word)

structure ThreadSystem (σ : Type) where
  shared : σ
  defaultHeap : DefaultHeap
  osThreads : Word → Option (OSThread σ)

structure CThread where
  iAttributes : Word
  pThread : Word
  pThreadStack : Word

def eAttributeAff : Core → Word
  | .core0 => 0x01
  | .core1 => 0x02
  | .core2 => 0x04

def eAttributeDetach : Word := 0x08

/-- What a call of `runOnAllCores` is given: the callback, as the steps it takes on each core, the
attributes, and the two blocks that the default heap returns for each core, 0 if it fails. -/
structure ThreadCall (σ : Type) where
  callback : Core → List (σ → σ)
  iAttr : Word
  osThreadBlock : Core → Word
  stackBlock : Core → Word

/-! ## The calling thread -/

/-- Where the calling thread is: before the constructor for the next core, in `resumeThread`, in the
loop of `shutdownThread`, in `OSJoinThread`, or before the blocks are freed. In `undefined` it has
called an OS function on memory that is no thread. -/
inductive Control where
  | construct (cores : List Core)
  | resumeThread (t : CThread) (cores : List Core)
  | shutdownThread (t : CThread) (cores : List Core)
  | join (t : CThread) (cores : List Core)
  | free (t : CThread) (cores : List Core)
  | undefined

def DefaultHeap.alloc (H : DefaultHeap) (a : Word) : DefaultHeap :=
  if a = 0 then H else { blocks := a :: H.blocks, calls := .alloc a :: H.calls }

def DefaultHeap.free (H : DefaultHeap) (a : Word) : DefaultHeap :=
  if a = 0 then H else { blocks := H.blocks.erase a, calls := .free a :: H.calls }

section
variable {σ : Type} (C : ThreadCall σ)

def osCreateThread (S : ThreadSystem σ) (a : Word) (body : List (σ → σ)) : ThreadSystem σ :=
  { S with osThreads := Function.update S.osThreads a (some (.suspended body)) }

def construct (c : Core) (S : ThreadSystem σ) : CThread × ThreadSystem σ :=
  let pThread := C.osThreadBlock c
  let pThreadStack := C.stackBlock c
  let S := { S with defaultHeap := (S.defaultHeap.alloc pThread).alloc pThreadStack }
  let S := if pThread ≠ 0 ∧ pThreadStack ≠ 0 then osCreateThread S pThread (C.callback c) else S
  (⟨C.iAttr ||| eAttributeAff c, pThread, pThreadStack⟩, S)

/-- `OSResumeThread` on a suspended thread. -/
def osResumeThread (S : ThreadSystem σ) (a : Word) (body : List (σ → σ)) : ThreadSystem σ :=
  { S with osThreads := Function.update S.osThreads a (some (.running body)) }

/-- `none` is memory that is no thread. -/
def resumeThread (t : CThread) (cores : List Core) (S : ThreadSystem σ) : Control × ThreadSystem σ :=
  if t.pThread = 0 then (.shutdownThread t cores, S)
  else
    match S.osThreads t.pThread with
    | none => (.undefined, S)
    | some (.suspended body) => (.shutdownThread t cores, osResumeThread S t.pThread body)
    | some _ => (.shutdownThread t cores, S)

/-- One round of the loop of `shutdownThread`. -/
def shutdownThread (t : CThread) (cores : List Core) (S : ThreadSystem σ) : Control × ThreadSystem σ :=
  if t.pThread = 0 ∨ t.iAttributes &&& eAttributeDetach ≠ 0 then (.free t cores, S)
  else
    match S.osThreads t.pThread with
    | none => (.undefined, S)
    | some (.suspended body) => (.shutdownThread t cores, osResumeThread S t.pThread body)
    | some _ => (.join t cores, S)

/-- Waits until the thread has ended. -/
def osJoinThread (t : CThread) (cores : List Core) (S : ThreadSystem σ) : Option (Control × ThreadSystem σ) :=
  match S.osThreads t.pThread with
  | none => some (.undefined, S)
  | some .terminated => some (.free t cores, S)
  | some _ => none

/-- The blocks of a running thread would be zeroed under it. -/
def freeThread (t : CThread) (cores : List Core) (S : ThreadSystem σ) : Control × ThreadSystem σ :=
  match S.osThreads t.pThread with
  | some (.running _) => (.undefined, S)
  | _ =>
    (.construct cores,
      { S with
        defaultHeap := (S.defaultHeap.free t.pThreadStack).free t.pThread
        osThreads := Function.update S.osThreads t.pThread none })

/-- One step of the calling thread, `none` where it waits or is done. -/
def callerStep : Control → ThreadSystem σ → Option (Control × ThreadSystem σ)
  | .construct [], _ => none
  | .construct (c :: cores), S =>
    let (t, S) := construct C c S
    some (.resumeThread t cores, S)
  | .resumeThread t cores, S => some (resumeThread t cores S)
  | .shutdownThread t cores, S => some (shutdownThread t cores S)
  | .join t cores, S => osJoinThread t cores S
  | .free t cores, S => some (freeThread t cores S)
  | .undefined, _ => none

/-- One step of the thread at `a`: the next step of its callback, or its end. -/
def threadStep (S : ThreadSystem σ) (a : Word) : Option (ThreadSystem σ) :=
  match S.osThreads a with
  | some (.running (f :: body)) =>
    some { S with shared := f S.shared, osThreads := Function.update S.osThreads a (some (.running body)) }
  | some (.running []) => some { S with osThreads := Function.update S.osThreads a (some .terminated) }
  | _ => none

inductive ThreadsStep : Control × ThreadSystem σ → Control × ThreadSystem σ → Prop
  | caller {k k' : Control} {S S' : ThreadSystem σ} : callerStep C k S = some (k', S') → ThreadsStep (k, S) (k', S')
  | thread {k : Control} {S S' : ThreadSystem σ} (a : Word) : threadStep S a = some S' → ThreadsStep (k, S) (k, S')

end

/-- The order of `aff`. -/
def affinities : List Core := [.core2, .core1, .core0]

/-! ## What a run amounts to -/

section
variable {σ : Type} (C : ThreadCall σ)

def runSteps (body : List (σ → σ)) (s : σ) : σ := body.foldl (fun s f => f s) s

/-- The callback of one core in one go, `none` where an OS function is called on no thread. -/
def coreMeaning (s : σ) (c : Core) : Option σ :=
  if C.osThreadBlock c = 0 then some s
  else if C.stackBlock c = 0 then none
  else some (runSteps (C.callback c) s)

def unfinished : Option (OSThread σ) → List (σ → σ)
  | some (.suspended body) => body
  | some (.running body) => body
  | _ => []

/-- What the shared state comes to once the thread has ended. -/
def ended (t : CThread) (S : ThreadSystem σ) : σ := runSteps (unfinished (S.osThreads t.pThread)) S.shared

def meaning : Control × ThreadSystem σ → Option σ
  | (.construct cores, S) => cores.foldlM (coreMeaning C) S.shared
  | (.resumeThread t cores, S) =>
    if t.pThread ≠ 0 ∧ t.pThreadStack = 0 then none else cores.foldlM (coreMeaning C) (ended t S)
  | (.shutdownThread t cores, S) => cores.foldlM (coreMeaning C) (ended t S)
  | (.join t cores, S) => cores.foldlM (coreMeaning C) (ended t S)
  | (.free t cores, S) => cores.foldlM (coreMeaning C) (ended t S)
  | (.undefined, _) => none

def threadRank : Option (OSThread σ) → Nat
  | some (.suspended body) => body.length + 3
  | some (.running body) => body.length + 1
  | _ => 0

def coresRank (cores : List Core) : Nat := (cores.map fun c => (C.callback c).length + 8).sum

/-- How many steps are left at most. -/
def rank : Control × ThreadSystem σ → Nat
  | (.construct cores, _) => coresRank C cores
  | (.resumeThread t cores, S) => coresRank C cores + threadRank (S.osThreads t.pThread) + 4
  | (.shutdownThread t cores, S) => coresRank C cores + threadRank (S.osThreads t.pThread) + 3
  | (.join t cores, S) => coresRank C cores + threadRank (S.osThreads t.pThread) + 2
  | (.free t cores, S) => coresRank C cores + threadRank (S.osThreads t.pThread) + 1
  | (.undefined, _) => 0

end

/-! ## The default heap -/

/-- The heap as it was, with the blocks `as` on top. -/
structure Held (H₀ : DefaultHeap) (as : List Word) (H : DefaultHeap) : Prop where
  blocks : H.blocks = as.filter (· ≠ 0) ++ H₀.blocks
  replays : Ledger.replay H.calls = some H.blocks

theorem Held.alloc {H₀ H : DefaultHeap} {as : List Word} {a : Word} (h : Held H₀ as H) (ha : a ≠ 0 → a ∉ H.blocks) :
    Held H₀ (a :: as) (H.alloc a) := by
  unfold DefaultHeap.alloc
  by_cases h0 : a = 0
  · rw [if_pos h0]
    refine ⟨?_, h.replays⟩
    rw [List.filter_cons_of_neg (by simpa using h0)]
    exact h.blocks
  · rw [if_neg h0]
    refine ⟨?_, Ledger.replay_alloc h.replays (ha h0)⟩
    rw [List.filter_cons_of_pos (by simpa using h0), h.blocks]
    rfl

theorem Held.free {H₀ H : DefaultHeap} {as : List Word} {a : Word} (h : Held H₀ (a :: as) H) : Held H₀ as (H.free a) := by
  have hb := h.blocks
  unfold DefaultHeap.free
  by_cases h0 : a = 0
  · rw [if_pos h0]
    rw [List.filter_cons_of_neg (by simpa using h0)] at hb
    exact ⟨hb, h.replays⟩
  · rw [if_neg h0]
    rw [List.filter_cons_of_pos (by simpa using h0), List.cons_append] at hb
    have ha : a ∈ H.blocks := by
      rw [hb]
      exact List.mem_cons_self
    refine ⟨?_, Ledger.replay_free h.replays ha⟩
    show H.blocks.erase a = _
    rw [hb, List.erase_cons_head]

/-! ## The invariant -/

def Started {σ : Type} (st : Option (OSThread σ)) : Prop := (∃ body, st = some (.running body)) ∨ st = some .terminated

/-- The calling thread is at work on the thread `t`, and there is no other. -/
structure AtWork {σ : Type} (H₀ : DefaultHeap) (t : CThread) (S : ThreadSystem σ) : Prop where
  attached : t.iAttributes &&& eAttributeDetach = 0
  others : ∀ a, a ≠ t.pThread → S.osThreads a = none
  null : S.osThreads 0 = none
  heap : Held H₀ [t.pThreadStack, t.pThread] S.defaultHeap

def Threaded {σ : Type} (H₀ : DefaultHeap) : Control × ThreadSystem σ → Prop
  | (.construct _, S) => Held H₀ [] S.defaultHeap ∧ ∀ a, S.osThreads a = none
  | (.resumeThread t _, S) => AtWork H₀ t S ∧ (t.pThread ≠ 0 →
      (t.pThreadStack = 0 ∧ S.osThreads t.pThread = none) ∨
      (t.pThreadStack ≠ 0 ∧ ∃ body, S.osThreads t.pThread = some (.suspended body)))
  | (.shutdownThread t _, S) => AtWork H₀ t S ∧ (t.pThread ≠ 0 → Started (S.osThreads t.pThread))
  | (.join t _, S) => AtWork H₀ t S ∧ t.pThread ≠ 0 ∧ Started (S.osThreads t.pThread)
  | (.free t _, S) => AtWork H₀ t S ∧ (t.pThread ≠ 0 → S.osThreads t.pThread = some .terminated)
  | (.undefined, S) => ∀ a, S.osThreads a = none

/-- What the default heap returns is not in use. -/
structure ThreadCall.Fresh {σ : Type} (C : ThreadCall σ) (H₀ : DefaultHeap) : Prop where
  osThread : ∀ c, C.osThreadBlock c ≠ 0 → C.osThreadBlock c ∉ H₀.blocks
  stack : ∀ c, C.stackBlock c ≠ 0 → C.stackBlock c ∉ H₀.blocks ∧ C.stackBlock c ≠ C.osThreadBlock c

section
variable {σ : Type} {C : ThreadCall σ} {H₀ : DefaultHeap} {k k' : Control} {S S' : ThreadSystem σ} {t : CThread}

theorem attached_aff {iAttr : Word} (h : iAttr &&& eAttributeDetach = 0) (c : Core) :
    (iAttr ||| eAttributeAff c) &&& eAttributeDetach = 0 := by
  have hc : eAttributeAff c &&& eAttributeDetach = 0 := by cases c <;> rfl
  rw [BitVec.and_or_distrib_right, h, hc]
  rfl

/-- What every step does to the three measures. -/
def Progress (C : ThreadCall σ) (H₀ : DefaultHeap) (x y : Control × ThreadSystem σ) : Prop :=
  Threaded H₀ y ∧ meaning C y = meaning C x ∧ rank C y < rank C x

theorem construct_shared (c : Core) : (construct C c S).2.shared = S.shared := by
  unfold construct
  dsimp only
  split <;> rfl

theorem construct_defaultHeap (c : Core) :
    (construct C c S).2.defaultHeap = (S.defaultHeap.alloc (C.osThreadBlock c)).alloc (C.stackBlock c) := by
  unfold construct
  dsimp only
  split <;> rfl

theorem construct_osThreads (c : Core) :
    (construct C c S).2.osThreads =
      if C.osThreadBlock c ≠ 0 ∧ C.stackBlock c ≠ 0 then
        Function.update S.osThreads (C.osThreadBlock c) (some (.suspended (C.callback c)))
      else S.osThreads := by
  unfold construct
  dsimp only
  split <;> rfl

theorem construct_held (hF : C.Fresh H₀) (h : Held H₀ [] S.defaultHeap) (c : Core) :
    Held H₀ [C.stackBlock c, C.osThreadBlock c] (construct C c S).2.defaultHeap := by
  have h₁ : Held H₀ [C.osThreadBlock c] (S.defaultHeap.alloc (C.osThreadBlock c)) := by
    refine h.alloc fun h0 => ?_
    rw [h.blocks]
    exact hF.osThread c h0
  rw [construct_defaultHeap]
  refine h₁.alloc fun h0 => ?_
  obtain ⟨hm, hne⟩ := hF.stack c h0
  rw [h₁.blocks, List.mem_append, List.mem_filter, List.mem_singleton]
  rintro (⟨e, -⟩ | h')
  · exact hne e
  · exact hm h'

theorem construct_threaded (hC : C.iAttr &&& eAttributeDetach = 0) (hF : C.Fresh H₀) {c : Core} {cores : List Core}
    (h : Threaded H₀ (.construct (c :: cores), S)) :
    Threaded H₀ (.resumeThread (construct C c S).1 cores, (construct C c S).2) := by
  obtain ⟨hheld, hnone⟩ := h
  have hthreads := construct_osThreads (C := C) (S := S) c
  have hheap := construct_held hF hheld c
  by_cases hboth : C.osThreadBlock c ≠ 0 ∧ C.stackBlock c ≠ 0
  · rw [if_pos hboth] at hthreads
    refine ⟨⟨attached_aff hC c, ?_, ?_, hheap⟩, fun _ => .inr ⟨hboth.2, C.callback c, ?_⟩⟩
    · intro a ha
      rw [hthreads]
      exact (Function.update_of_ne ha ..).trans (hnone a)
    · rw [hthreads]
      exact (Function.update_of_ne (Ne.symm hboth.1) ..).trans (hnone 0)
    · rw [hthreads]
      exact Function.update_self ..
  · rw [if_neg hboth] at hthreads
    refine ⟨⟨attached_aff hC c, ?_, ?_, hheap⟩, fun h0 => .inl ⟨?_, ?_⟩⟩
    · intro a _
      rw [hthreads]
      exact hnone a
    · rw [hthreads]
      exact hnone 0
    · exact not_not.mp fun h' => hboth ⟨h0, h'⟩
    · rw [hthreads]
      exact hnone _

theorem construct_meaning (h : ∀ a, S.osThreads a = none) (c : Core) (cores : List Core) :
    meaning C (.resumeThread (construct C c S).1 cores, (construct C c S).2) =
      meaning C (.construct (c :: cores), S) := by
  have hthreads := construct_osThreads (C := C) (S := S) c
  have hended : ended (construct C c S).1 (construct C c S).2 =
      if C.osThreadBlock c ≠ 0 ∧ C.stackBlock c ≠ 0 then runSteps (C.callback c) S.shared else S.shared := by
    unfold ended
    rw [construct_shared, hthreads]
    split
    · rw [show (construct C c S).1.pThread = C.osThreadBlock c from rfl, Function.update_self]
      rfl
    · rw [h]
      rfl
  show (if C.osThreadBlock c ≠ 0 ∧ C.stackBlock c = 0 then none else _) = (coreMeaning C S.shared c).bind _
  rw [hended]
  unfold coreMeaning
  by_cases h₁ : C.osThreadBlock c = 0
  · rw [if_neg (fun h' => h'.1 h₁), if_neg (fun h' => h'.1 h₁), if_pos h₁]
    rfl
  · by_cases h₂ : C.stackBlock c = 0
    · rw [if_pos ⟨h₁, h₂⟩, if_neg h₁, if_pos h₂]
      rfl
    · rw [if_neg (fun h' => h₂ h'.2), if_pos ⟨h₁, h₂⟩, if_neg h₁, if_neg h₂]
      rfl

theorem construct_rank (h : ∀ a, S.osThreads a = none) (c : Core) (cores : List Core) :
    rank C (.resumeThread (construct C c S).1 cores, (construct C c S).2) < rank C (.construct (c :: cores), S) := by
  have hthreads := construct_osThreads (C := C) (S := S) c
  have hrank : threadRank ((construct C c S).2.osThreads (construct C c S).1.pThread) ≤ (C.callback c).length + 3 := by
    rw [hthreads, show (construct C c S).1.pThread = C.osThreadBlock c from rfl]
    split
    · rw [Function.update_self]
      exact Nat.le_refl _
    · rw [h]
      exact Nat.zero_le _
  have hcores : coresRank C (c :: cores) = (C.callback c).length + 8 + coresRank C cores := by
    unfold coresRank
    rw [List.map_cons, List.sum_cons]
  show coresRank C cores + threadRank _ + 4 < coresRank C (c :: cores)
  omega

/-! ## The thread at work -/

theorem AtWork.update (h : AtWork H₀ t S) (h0 : t.pThread ≠ 0) (st : Option (OSThread σ)) {s : σ} :
    AtWork H₀ t { S with shared := s, osThreads := Function.update S.osThreads t.pThread st } where
  attached := h.attached
  others a ha := (Function.update_of_ne ha ..).trans (h.others a ha)
  null := (Function.update_of_ne (Ne.symm h0) ..).trans h.null
  heap := h.heap

theorem ended_update (st : Option (OSThread σ)) {s : σ} :
    ended t { S with shared := s, osThreads := Function.update S.osThreads t.pThread st } =
      runSteps (unfinished st) s := by
  show runSteps (unfinished (Function.update S.osThreads t.pThread st t.pThread)) s = _
  rw [Function.update_self]

theorem resumeThread_progress {cores : List Core} (h : Threaded H₀ (.resumeThread t cores, S)) :
    Progress C H₀ (.resumeThread t cores, S) (resumeThread t cores S) := by
  obtain ⟨hw, hstate⟩ := h
  unfold resumeThread
  by_cases h0 : t.pThread = 0
  · rw [if_pos h0]
    refine ⟨⟨hw, fun h => absurd h0 h⟩, ?_, ?_⟩
    · show _ = if t.pThread ≠ 0 ∧ t.pThreadStack = 0 then none else _
      rw [if_neg (fun h => h.1 h0)]
      rfl
    · show coresRank C cores + threadRank _ + 3 < coresRank C cores + threadRank _ + 4
      omega
  · rw [if_neg h0]
    rcases hstate h0 with ⟨hs, hn⟩ | ⟨hs, body, hb⟩
    · rw [hn]
      refine ⟨?_, ?_, ?_⟩
      · intro a
        by_cases ha : a = t.pThread
        · rw [ha]
          exact hn
        · exact hw.others a ha
      · exact (if_pos ⟨h0, hs⟩).symm
      · show 0 < coresRank C cores + threadRank _ + 4
        omega
    · rw [hb]
      refine ⟨⟨hw.update h0 _, fun _ => .inl ⟨body, Function.update_self ..⟩⟩, ?_, ?_⟩
      · show cores.foldlM (coreMeaning C) (ended t _) = if t.pThread ≠ 0 ∧ t.pThreadStack = 0 then none else _
        rw [if_neg (fun h => hs h.2)]
        dsimp only [osResumeThread]
        rw [ended_update, ended, hb]
        rfl
      · show coresRank C cores + threadRank (Function.update S.osThreads t.pThread _ t.pThread) + 3 <
          coresRank C cores + threadRank _ + 4
        rw [Function.update_self, hb]
        show coresRank C cores + (body.length + 1) + 3 < coresRank C cores + (body.length + 3) + 4
        omega

theorem shutdownThread_progress {cores : List Core} (h : Threaded H₀ (.shutdownThread t cores, S)) :
    Progress C H₀ (.shutdownThread t cores, S) (shutdownThread t cores S) := by
  obtain ⟨hw, hstarted⟩ := h
  unfold shutdownThread
  by_cases h0 : t.pThread = 0
  · rw [if_pos (.inl h0)]
    refine ⟨⟨hw, fun h => absurd h0 h⟩, rfl, ?_⟩
    show coresRank C cores + threadRank _ + 1 < coresRank C cores + threadRank _ + 3
    omega
  · rw [if_neg (fun h => h.elim h0 fun h' => h' hw.attached)]
    have hlt : coresRank C cores + threadRank (S.osThreads t.pThread) + 2 <
        coresRank C cores + threadRank (S.osThreads t.pThread) + 3 := Nat.lt_succ_self _
    rcases hstarted h0 with ⟨body, hb⟩ | ht
    · rw [hb]
      exact ⟨⟨hw, h0, hstarted h0⟩, rfl, hlt⟩
    · rw [ht]
      exact ⟨⟨hw, h0, hstarted h0⟩, rfl, hlt⟩

theorem osJoinThread_progress {cores : List Core} {y : Control × ThreadSystem σ} (h : Threaded H₀ (.join t cores, S))
    (hstep : osJoinThread t cores S = some y) : Progress C H₀ (.join t cores, S) y := by
  obtain ⟨hw, h0, hstarted⟩ := h
  unfold osJoinThread at hstep
  rcases hstarted with ⟨body, hb⟩ | ht
  · rw [hb] at hstep
    cases hstep
  · have hlt : coresRank C cores + threadRank (S.osThreads t.pThread) + 1 <
        coresRank C cores + threadRank (S.osThreads t.pThread) + 2 := Nat.lt_succ_self _
    rw [ht] at hstep
    cases hstep
    exact ⟨⟨hw, fun _ => ht⟩, rfl, hlt⟩

theorem freeThread_progress {cores : List Core} (h : Threaded H₀ (.free t cores, S)) :
    Progress C H₀ (.free t cores, S) (freeThread t cores S) := by
  obtain ⟨hw, hterminated⟩ := h
  have hended : unfinished (S.osThreads t.pThread) = [] ∧ ∀ body, S.osThreads t.pThread ≠ some (.running body) := by
    by_cases h0 : t.pThread = 0
    · rw [h0, hw.null]
      exact ⟨rfl, fun _ => nofun⟩
    · rw [hterminated h0]
      exact ⟨rfl, fun _ => nofun⟩
  unfold freeThread
  split
  case h_1 body hb => exact absurd hb (hended.2 body)
  case h_2 =>
    refine ⟨⟨hw.heap.free.free, ?_⟩, ?_, ?_⟩
    · intro a
      by_cases ha : a = t.pThread
      · rw [ha]
        exact Function.update_self ..
      · exact (Function.update_of_ne ha ..).trans (hw.others a ha)
    · show cores.foldlM (coreMeaning C) S.shared = cores.foldlM (coreMeaning C) (ended t S)
      rw [ended, hended.1]
      rfl
    · show coresRank C cores < coresRank C cores + threadRank _ + 1
      omega

theorem callerStep_progress (hC : C.iAttr &&& eAttributeDetach = 0) (hF : C.Fresh H₀) {y : Control × ThreadSystem σ}
    (h : Threaded H₀ (k, S)) (hstep : callerStep C k S = some y) : Progress C H₀ (k, S) y := by
  cases k with
  | construct cores =>
    cases cores with
    | nil => cases hstep
    | cons c cores =>
      cases hstep
      exact ⟨construct_threaded hC hF h, construct_meaning h.2 c cores, construct_rank h.2 c cores⟩
  | resumeThread t cores =>
    cases hstep
    exact resumeThread_progress h
  | shutdownThread t cores =>
    cases hstep
    exact shutdownThread_progress h
  | join t cores => exact osJoinThread_progress h hstep
  | free t cores =>
    cases hstep
    exact freeThread_progress h
  | undefined => cases hstep

/-- The next step of a callback, or its end. -/
theorem threadStep_cases {a : Word} (h : threadStep S a = some S') :
    ∃ body st s, S.osThreads a = some (.running body) ∧
      S' = { S with shared := s, osThreads := Function.update S.osThreads a st } ∧ Started st ∧
      runSteps (unfinished st) s = runSteps body S.shared ∧ threadRank st < body.length + 1 := by
  unfold threadStep at h
  split at h
  case h_1 f body hb =>
    cases h
    exact ⟨f :: body, some (.running body), f S.shared, hb, rfl, .inl ⟨body, rfl⟩, rfl, Nat.lt_succ_self _⟩
  case h_2 hb =>
    cases h
    exact ⟨[], some .terminated, S.shared, hb, rfl, .inr rfl, rfl, Nat.zero_lt_one⟩
  case h_3 => cases h

theorem Threaded.running {a : Word} {body : List (σ → σ)} (h : Threaded H₀ (k, S))
    (ha : S.osThreads a = some (.running body)) :
    ∃ t cores, a = t.pThread ∧ t.pThread ≠ 0 ∧ AtWork H₀ t S ∧ (k = .shutdownThread t cores ∨ k = .join t cores) := by
  have hthread {t : CThread} (hw : AtWork H₀ t S) : a = t.pThread ∧ t.pThread ≠ 0 := by
    have ht : a = t.pThread := by
      by_contra hne
      rw [hw.others a hne] at ha
      cases ha
    refine ⟨ht, fun h0 => ?_⟩
    rw [ht, h0, hw.null] at ha
    cases ha
  cases k with
  | construct cores =>
    rw [h.2 a] at ha
    cases ha
  | resumeThread t cores =>
    obtain ⟨hw, hstate⟩ := h
    obtain ⟨ht, h0⟩ := hthread hw
    rw [ht] at ha
    rcases hstate h0 with ⟨-, hn⟩ | ⟨-, body', hb⟩
    · rw [hn] at ha
      cases ha
    · rw [hb] at ha
      cases ha
  | shutdownThread t cores =>
    obtain ⟨ht, h0⟩ := hthread h.1
    exact ⟨t, cores, ht, h0, h.1, .inl rfl⟩
  | join t cores =>
    obtain ⟨ht, h0⟩ := hthread h.1
    exact ⟨t, cores, ht, h0, h.1, .inr rfl⟩
  | free t cores =>
    obtain ⟨ht, h0⟩ := hthread h.1
    rw [ht, h.2 h0] at ha
    cases ha
  | undefined =>
    rw [h a] at ha
    cases ha

theorem threadStep_progress {a : Word} (h : Threaded H₀ (k, S)) (hstep : threadStep S a = some S') :
    Progress C H₀ (k, S) (k, S') := by
  obtain ⟨body, st, s, hb, rfl, hst, hrun, hrank⟩ := threadStep_cases hstep
  obtain ⟨t, cores, rfl, h0, hw, hk⟩ := h.running hb
  have hw' := hw.update h0 st (s := s)
  have hst' : Started (Function.update S.osThreads t.pThread st t.pThread) := by
    rw [Function.update_self]
    exact hst
  have hended : cores.foldlM (coreMeaning C)
      (ended t { S with shared := s, osThreads := Function.update S.osThreads t.pThread st }) =
      cores.foldlM (coreMeaning C) (ended t S) := by
    rw [ended_update, hrun, ended, hb]
    rfl
  have hlt : threadRank (Function.update S.osThreads t.pThread st t.pThread) < threadRank (S.osThreads t.pThread) := by
    rw [Function.update_self, hb]
    exact hrank
  rcases hk with rfl | rfl
  · refine ⟨⟨hw', fun _ => hst'⟩, hended, ?_⟩
    exact Nat.add_lt_add_right (Nat.add_lt_add_left hlt _) 3
  · refine ⟨⟨hw', h0, hst'⟩, hended, ?_⟩
    exact Nat.add_lt_add_right (Nat.add_lt_add_left hlt _) 2

theorem threadsStep_progress (hC : C.iAttr &&& eAttributeDetach = 0) (hF : C.Fresh H₀) {x y : Control × ThreadSystem σ}
    (h : Threaded H₀ x) (step : ThreadsStep C x y) : Progress C H₀ x y := by
  cases step with
  | caller hstep => exact callerStep_progress hC hF h hstep
  | thread a hstep => exact threadStep_progress h hstep

theorem threads_descend (hC : C.iAttr &&& eAttributeDetach = 0) (hF : C.Fresh H₀) :
    Measured.Descends (ThreadsStep C) (Threaded H₀) (meaning C) (rank C) where
  keeps h step := (threadsStep_progress hC hF h step).1
  meaning_eq h step := (threadsStep_progress hC hF h step).2.1
  rank_lt h step := (threadsStep_progress hC hF h step).2.2

/-- The join waits only while the thread can go on. -/
theorem Threaded.final (h : Threaded H₀ (k, S)) (hfinal : ∀ y, ¬ ThreadsStep C (k, S) y) :
    k = .construct [] ∨ k = .undefined := by
  cases k with
  | construct cores =>
    cases cores with
    | nil => exact .inl rfl
    | cons c cores => exact absurd (.caller rfl) (hfinal _)
  | resumeThread t cores => exact absurd (.caller rfl) (hfinal (resumeThread t cores S))
  | shutdownThread t cores => exact absurd (.caller rfl) (hfinal (shutdownThread t cores S))
  | join t cores =>
    obtain ⟨-, -, ⟨body, hb⟩ | ht⟩ := h
    · have hstep : ∃ S', threadStep S t.pThread = some S' := by
        unfold threadStep
        rw [hb]
        cases body with
        | nil => exact ⟨_, rfl⟩
        | cons f body => exact ⟨_, rfl⟩
      obtain ⟨S', hS'⟩ := hstep
      exact absurd (.thread t.pThread hS') (hfinal _)
    · refine absurd (.caller ?_) (hfinal (.free t cores, S))
      show osJoinThread t cores S = _
      unfold osJoinThread
      rw [ht]
  | free t cores => exact absurd (.caller rfl) (hfinal (freeThread t cores S))
  | undefined => exact .inr rfl

theorem coreMeaning_eq (c : Core) (h : C.osThreadBlock c ≠ 0 → C.stackBlock c ≠ 0) (s : σ) :
    coreMeaning C s c =
      some (if C.osThreadBlock c ≠ 0 ∧ C.stackBlock c ≠ 0 then runSteps (C.callback c) s else s) := by
  unfold coreMeaning
  by_cases h₁ : C.osThreadBlock c = 0
  · rw [if_pos h₁, if_neg (fun h' => h'.1 h₁)]
  · rw [if_neg h₁, if_neg (h h₁), if_pos ⟨h₁, h h₁⟩]

theorem foldlM_coreMeaning (cores : List Core) (h : ∀ c ∈ cores, C.osThreadBlock c ≠ 0 → C.stackBlock c ≠ 0) (s : σ) :
    cores.foldlM (coreMeaning C) s =
      some (cores.foldl (fun s c =>
        if C.osThreadBlock c ≠ 0 ∧ C.stackBlock c ≠ 0 then runSteps (C.callback c) s else s) s) := by
  induction cores generalizing s with
  | nil => rfl
  | cons c cores ih =>
    rw [List.foldlM_cons, List.foldl_cons, coreMeaning_eq c (h c List.mem_cons_self)]
    exact ih (fun c hc => h c (List.mem_cons_of_mem _ hc)) _

theorem foldlM_coreMeaning_none {cores : List Core} {c : Core} (hc : c ∈ cores) (h₁ : C.osThreadBlock c ≠ 0)
    (h₂ : C.stackBlock c = 0) (s : σ) : cores.foldlM (coreMeaning C) s = none := by
  induction cores generalizing s with
  | nil => cases hc
  | cons c' cores ih =>
    rw [List.foldlM_cons]
    rcases List.mem_cons.mp hc with rfl | hc
    · have : coreMeaning C s c = none := by
        unfold coreMeaning
        rw [if_neg h₁, if_pos h₂]
      rw [this]
      rfl
    · cases coreMeaning C s c' with
      | none => rfl
      | some s' => exact ih hc s'

end

theorem mem_affinities (c : Core) : c ∈ affinities := by cases c <;> decide

/-- **Interleaving.** Every run of `runOnAllCores` and its threads is finite, however they
interleave. Where each `OSThread` comes with a stack it ends with the callbacks having run one after
the other and the default heap as before; where one does not it ends in a call on no thread. -/
theorem runOnAllCores_interleaved (E : Env) (C : ThreadCall State) (callback : Core → State → State)
    (S : ThreadSystem State) (hcallback : ∀ c, runSteps (C.callback c) = callback c)
    (hthread : ∀ c, E.pThread c = true ↔ C.osThreadBlock c ≠ 0)
    (hstack : ∀ c, E.pThreadStack c = true ↔ C.stackBlock c ≠ 0)
    (hattr : C.iAttr &&& eAttributeDetach = 0) (hfresh : C.Fresh S.defaultHeap) (hnone : ∀ a, S.osThreads a = none)
    (hledger : Ledger.replay S.defaultHeap.calls = some S.defaultHeap.blocks) :
    (∀ n y, Measured.Steps (ThreadsStep C) n (.construct affinities, S) y →
        n ≤ (affinities.map fun c => (C.callback c).length + 8).sum) ∧
      ∀ y, Relation.ReflTransGen (ThreadsStep C) (.construct affinities, S) y → (∀ z, ¬ ThreadsStep C y z) →
        ((∀ c, C.osThreadBlock c ≠ 0 → C.stackBlock c ≠ 0) →
          y.1 = .construct [] ∧ y.2.shared = runOnAllCores E callback S.shared ∧
            y.2.defaultHeap.blocks = S.defaultHeap.blocks ∧
            Ledger.replay y.2.defaultHeap.calls = some S.defaultHeap.blocks) ∧
        ((∃ c, C.osThreadBlock c ≠ 0 ∧ C.stackBlock c = 0) → y.1 = .undefined) := by
  have hstart : Threaded S.defaultHeap (.construct affinities, S) := ⟨⟨rfl, hledger⟩, hnone⟩
  have hD := threads_descend hattr hfresh
  refine ⟨?_, ?_⟩
  · intro n y hrun
    exact Nat.le_trans (Nat.le_add_right ..) (hD.length_le hstart hrun)
  · rintro ⟨k, S'⟩ hrun hfinal
    obtain ⟨hT, hm, -⟩ := hD.run hstart hrun
    refine ⟨fun hgood => ?_, fun ⟨c, h₁, h₂⟩ => ?_⟩
    · have hfold : runOnAllCores E callback S.shared =
          affinities.foldl (fun s c =>
            if C.osThreadBlock c ≠ 0 ∧ C.stackBlock c ≠ 0 then runSteps (C.callback c) s else s) S.shared := by
        unfold runOnAllCores
        simp only [hthread, hstack, hcallback]
        rfl
      rw [show meaning C (.construct affinities, S) = some _ from
          foldlM_coreMeaning affinities (fun c _ => hgood c) S.shared,
        ← hfold] at hm
      rcases hT.final hfinal with rfl | rfl
      · have hblocks := hT.1.blocks
        refine ⟨rfl, Option.some.inj hm, hblocks, ?_⟩
        rw [hT.1.replays, hblocks]
        rfl
      · cases hm
    · rw [show meaning C (.construct affinities, S) = none from
        foldlM_coreMeaning_none (mem_affinities c) h₁ h₂ S.shared] at hm
      rcases hT.final hfinal with rfl | rfl
      · cases hm
      · rfl

def plainCall : ThreadCall State where
  callback c := [writeDataAndFlushIC (plainEnv 0x10 true) 0x10 c]
  iAttr := 0
  osThreadBlock _ := 0x100
  stackBlock _ := 0x800

def plainThreads : ThreadSystem State := ⟨plainState 0x7c0802a6, ⟨[0x20], [.alloc 0x20]⟩, fun _ => none⟩

theorem plainCall_fresh : plainCall.Fresh plainThreads.defaultHeap where
  osThread c _ := by cases c <;> decide
  stack c _ := by cases c <;> decide

theorem runOnAllCores_interleaved_completes :
    ∃ S', Relation.ReflTransGen (ThreadsStep plainCall) (.construct affinities, plainThreads) (.construct [], S') ∧
      S'.shared = runOnAllCores (plainEnv 0x10 true) (writeDataAndFlushIC (plainEnv 0x10 true) 0x10)
        (plainState 0x7c0802a6) ∧
      S'.defaultHeap.blocks = [0x20] := by
  have hnone : ∀ a, plainThreads.osThreads a = none := fun _ => rfl
  have hledger : Ledger.replay plainThreads.defaultHeap.calls = some plainThreads.defaultHeap.blocks := by decide
  have hblock : ∀ c, true = true ↔ plainCall.osThreadBlock c ≠ 0 := fun c => by cases c <;> decide
  have hstack : ∀ c, true = true ↔ plainCall.stackBlock c ≠ 0 := fun c => by cases c <;> decide
  have hstart : Threaded plainThreads.defaultHeap (.construct affinities, plainThreads) := ⟨⟨rfl, hledger⟩, hnone⟩
  obtain ⟨⟨k, S'⟩, hrun, hfinal⟩ := (threads_descend rfl plainCall_fresh).finishes hstart
  have hend := ((runOnAllCores_interleaved (plainEnv 0x10 true) plainCall _ plainThreads (fun _ => rfl)
    hblock hstack rfl plainCall_fresh hnone hledger).2 _ hrun hfinal).1 (fun c _ => (hstack c).mp rfl)
  obtain ⟨rfl, hshared, hblocks, -⟩ := hend
  exact ⟨S', hrun, hshared, hblocks⟩

end FunctionPatcher
