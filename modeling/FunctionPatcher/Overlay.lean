import Mathlib.Data.List.Chain
import Mathlib.Logic.Function.Basic

/-!
# Overlaid memory

A cell of a memory is overlaid by layers. A layer knows the value it put into
the cell (`jump`) and the value it found there (`saved`). `Chain b is t`: the
layers `is`, lowest first, lie on the value `b` and leave `t` in the cell.
`Stacked` says it of a whole memory, for layers at many addresses kept in one
list, of which only the `live` ones are in memory.
-/

namespace Overlay

section
variable {ι α : Type*} (saved jump : ι → α)

def Chain : α → List ι → α → Prop
  | b, [], t => t = b
  | b, i :: is, t => saved i = b ∧ Chain (jump i) is t

def top (b : α) (is : List ι) : α := (is.getLast?.map jump).getD b

@[simp] theorem chain_nil {b t : α} : Chain saved jump b [] t ↔ t = b := Iff.rfl

@[simp] theorem chain_cons {b t : α} {i : ι} {is : List ι} :
    Chain saved jump b (i :: is) t ↔ saved i = b ∧ Chain saved jump (jump i) is t := Iff.rfl

theorem chain_append {b t : α} {is js : List ι} :
    Chain saved jump b (is ++ js) t ↔ ∃ m, Chain saved jump b is m ∧ Chain saved jump m js t := by
  induction is generalizing b with
  | nil => simp
  | cons i is ih =>
    simp only [List.cons_append, chain_cons, ih]
    constructor
    · intro ⟨h, m, h₁, h₂⟩
      exact ⟨m, ⟨h, h₁⟩, h₂⟩
    · intro ⟨m, ⟨h, h₁⟩, h₂⟩
      exact ⟨h, m, h₁, h₂⟩

theorem chain_snoc {b t : α} {is : List ι} {i : ι} :
    Chain saved jump b (is ++ [i]) t ↔ Chain saved jump b is (saved i) ∧ t = jump i := by
  simp only [chain_append, chain_cons, chain_nil]
  constructor
  · rintro ⟨m, h, rfl, ht⟩; exact ⟨h, ht⟩
  · rintro ⟨h, ht⟩; exact ⟨_, h, rfl, ht⟩

theorem chain_top {b t : α} {is : List ι} (h : Chain saved jump b is t) : t = top jump b is := by
  rcases List.eq_nil_or_concat is with rfl | ⟨is, i, rfl⟩
  · exact h
  · rw [List.concat_eq_append] at h ⊢
    simp [top, ((chain_snoc saved jump).mp h).2]

theorem chain_saved {t : α} : ∀ {b : α} {is : List ι}, Chain saved jump b is t → ∀ i ∈ is,
    saved i = b ∨ ∃ j ∈ is, saved i = jump j
  | b, k :: is, ⟨hk, h⟩, i, hi => by
    rcases List.mem_cons.mp hi with rfl | hi
    · exact .inl hk
    · rcases chain_saved h i hi with hs | ⟨j, hj, hs⟩
      · exact .inr ⟨k, List.mem_cons_self .., hs⟩
      · exact .inr ⟨j, List.mem_cons_of_mem _ hj, hs⟩

/-- A chain in terms of its ends and its neighbours. -/
theorem chain_iff {t : α} : ∀ (b : α) (is : List ι), Chain saved jump b is t ↔
    t = top jump b is ∧ is.IsChain (fun i j => saved j = jump i) ∧ ∀ i ∈ is.head?, saved i = b
  | b, [] => by simp [top]
  | b, [i] => by simp [top, and_comm]
  | b, i :: j :: is => by
    rw [chain_cons, chain_iff _ (j :: is), List.isChain_cons_cons]
    simp only [top, List.getLast?_cons_cons, List.head?_cons, Option.mem_def, Option.some.injEq, forall_eq']
    rw [List.getLast?_cons]
    simp only [Option.map_some, Option.getD_some]
    constructor
    · rintro ⟨h, ht, hc, hs⟩; exact ⟨ht, ⟨hs, hc⟩, h⟩
    · rintro ⟨ht, ⟨hs, hc⟩, h⟩; exact ⟨h, ht, hc, hs⟩

end

/-! ## A memory of overlaid cells -/

section
variable {ι α A : Type*} [DecidableEq A] (saved jump : ι → α) (addr : ι → A) (live : ι → Bool)

def layersAt (is : List ι) (a : A) : List ι := is.filter fun i => live i && decide (addr i = a)

def Stacked (base : A → α) (is : List ι) (mem : A → α) : Prop :=
  ∀ a, Chain saved jump (base a) (layersAt addr live is a) (mem a)

variable {saved jump addr live} {base : A → α} {xs ys : List ι} {x x' : ι} {mem : A → α}

theorem mem_layersAt {i : ι} {is : List ι} {a : A} :
    i ∈ layersAt addr live is a ↔ i ∈ is ∧ live i = true ∧ addr i = a := by
  simp [layersAt]

theorem layersAt_append (is js : List ι) (a : A) :
    layersAt addr live (is ++ js) a = layersAt addr live is a ++ layersAt addr live js a :=
  List.filter_append ..

theorem layersAt_cons_of_dead (h : live x = false) (is : List ι) (a : A) :
    layersAt addr live (x :: is) a = layersAt addr live is a := by
  simp [layersAt, h]

theorem layersAt_cons_of_ne {a : A} (h : addr x ≠ a) (is : List ι) :
    layersAt addr live (x :: is) a = layersAt addr live is a := by
  simp [layersAt, h]

theorem layersAt_cons_self (h : live x = true) (is : List ι) :
    layersAt addr live (x :: is) (addr x) = x :: layersAt addr live is (addr x) := by
  simp [layersAt, h]

theorem layersAt_eq_nil {is : List ι} {a : A} (h : ∀ i ∈ is, live i = true → addr i ≠ a) :
    layersAt addr live is a = [] :=
  List.eq_nil_iff_forall_not_mem.mpr fun i hi => by
    obtain ⟨hm, hl, ha⟩ := mem_layersAt.mp hi
    exact h i hm hl ha

theorem Stacked.eq_base {is : List ι} (hs : Stacked saved jump addr live base is mem)
    (hd : ∀ i ∈ is, live i = false) : mem = base := by
  funext a
  have := hs a
  rwa [layersAt_eq_nil fun i hi hl => by rw [hd i hi] at hl; cases hl] at this

theorem stacked_nil : Stacked saved jump addr live base [] base := fun _ => rfl

theorem stacked_dead (h : live x = false) :
    Stacked saved jump addr live base (xs ++ x :: ys) mem ↔
      Stacked saved jump addr live base (xs ++ ys) mem := by
  simp only [Stacked, layersAt_append, layersAt_cons_of_dead h]

theorem Stacked.push (hs : Stacked saved jump addr live base (xs ++ x :: ys) mem) (hx : live x = false)
    (hx' : live x' = true) (hsaved : saved x' = mem (addr x'))
    (hys : ∀ y ∈ ys, live y = true → addr y ≠ addr x') :
    Stacked saved jump addr live base (xs ++ x' :: ys) (Function.update mem (addr x') (jump x')) := by
  rw [stacked_dead hx] at hs
  intro a
  by_cases ha : a = addr x'
  · subst ha
    have := hs (addr x')
    rw [layersAt_append, layersAt_eq_nil hys, List.append_nil] at this
    rw [layersAt_append, layersAt_cons_self hx', layersAt_eq_nil hys, chain_snoc, Function.update_self]
    exact ⟨hsaved ▸ this, rfl⟩
  · have := hs a
    rw [layersAt_append] at this
    rwa [layersAt_append, layersAt_cons_of_ne (Ne.symm ha), Function.update_of_ne ha]

theorem Stacked.shown (hs : Stacked saved jump addr live base (xs ++ x :: ys) mem) (hx : live x = true)
    (hys : ∀ y ∈ ys, live y = true → addr y ≠ addr x) : mem (addr x) = jump x := by
  have := hs (addr x)
  rw [layersAt_append, layersAt_cons_self hx, layersAt_eq_nil hys, chain_snoc] at this
  exact this.2

theorem Stacked.pop (hs : Stacked saved jump addr live base (xs ++ x :: ys) mem) (hx : live x = true)
    (hys : ∀ y ∈ ys, live y = true → addr y ≠ addr x) (hx' : live x' = false) :
    Stacked saved jump addr live base (xs ++ x' :: ys) (Function.update mem (addr x) (saved x)) := by
  rw [stacked_dead hx']
  intro a
  by_cases ha : a = addr x
  · subst ha
    have := hs (addr x)
    rw [layersAt_append, layersAt_cons_self hx, layersAt_eq_nil hys, chain_snoc] at this
    rw [layersAt_append, layersAt_eq_nil hys, List.append_nil, Function.update_self]
    exact this.1
  · have := hs a
    rw [layersAt_append, layersAt_cons_of_ne (Ne.symm ha)] at this
    rwa [layersAt_append, Function.update_of_ne ha]

theorem stacked_snoc_dead (h : live x = false) :
    Stacked saved jump addr live base (xs ++ [x]) mem ↔ Stacked saved jump addr live base xs mem := by
  rw [stacked_dead h, List.append_nil]

end

end Overlay
