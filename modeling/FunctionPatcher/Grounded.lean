import FunctionPatcher.Overlay

/-!
# Layers that are laid at the same time

Parties that do not wait for each other lay their layers: each looks at its cell,
and later puts its own value over whatever is there by then. Not every layer can
be reached from the cell in the end, but what is in the cell leads to its base.
-/

namespace Overlay

section
variable {ι α A : Type*} (saved jump : ι → α) (addr : ι → A) (live : ι → Bool) (base : A → α)

/-- The value `v` of the cell `a` is its base, or one of the layers has put it there. -/
def Origin (is : List ι) (a : A) (v : α) : Prop :=
  v = base a ∨ ∃ i ∈ is, live i = true ∧ addr i = a ∧ v = jump i

/-- Each layer found a value that comes from the base or from layers before it. -/
def Grounded (is : List ι) : Prop :=
  ∀ xs x ys, is = xs ++ x :: ys → Origin jump addr live base xs (addr x) (saved x)

variable {saved jump addr live base} {is js : List ι} {i : ι} {a : A} {v : α}

theorem Origin.mono {jump' : ι → α} {addr' : ι → A} {live' : ι → Bool} (h : Origin jump addr live base is a v)
    (hsub : ∀ i ∈ is, i ∈ js)
    (hlive : ∀ i ∈ is, live i = true → live' i = true ∧ addr' i = addr i ∧ jump' i = jump i) :
    Origin jump' addr' live' base js a v := by
  rcases h with h | ⟨i, hi, hl, ha, hv⟩
  · exact .inl h
  · obtain ⟨hl', ha', hj'⟩ := hlive i hi hl
    exact .inr ⟨i, hsub i hi, hl', ha'.trans ha, hv.trans hj'.symm⟩

theorem grounded_nil : Grounded saved jump addr live base ([] : List ι) := by
  intro xs x ys h
  simp at h

theorem grounded_snoc : Grounded saved jump addr live base (is ++ [i]) ↔
    Grounded saved jump addr live base is ∧ Origin jump addr live base is (addr i) (saved i) := by
  constructor
  · intro h
    refine ⟨?_, h is i [] rfl⟩
    intro xs x ys he
    exact h xs x (ys ++ [i]) (by simp [he])
  · rintro ⟨h, hi⟩ xs x ys he
    rcases List.eq_nil_or_concat ys with rfl | ⟨ys, y, rfl⟩
    · obtain ⟨rfl, hx⟩ := List.append_inj' he rfl
      cases hx
      exact hi
    · rw [List.concat_eq_append, ← List.cons_append, ← List.append_assoc] at he
      exact h xs x ys (List.append_inj' he rfl).1

theorem Grounded.mono {saved' jump' : ι → α} {addr' : ι → A} {live' : ι → Bool}
    (h : Grounded saved jump addr live base is) (hkept : ∀ i ∈ is, addr' i = addr i ∧ saved' i = saved i)
    (hlive : ∀ i ∈ is, live i = true → live' i = true ∧ jump' i = jump i) :
    Grounded saved' jump' addr' live' base is := by
  intro xs x ys he
  have hx : x ∈ is := by simp [he]
  rw [(hkept x hx).1, (hkept x hx).2]
  refine (h xs x ys he).mono (fun _ h => h) ?_
  intro i hi hl
  have hi : i ∈ is := by simp [he, hi]
  exact ⟨(hlive i hi hl).1, (hkept i hi).1, (hlive i hi hl).2⟩

/-- What is in a cell lies on some of the layers, in the order they looked, and these on the base. -/
theorem Grounded.exists_chain (h : Grounded saved jump addr live base is) (hv : Origin jump addr live base is a v) :
    ∃ js, js.Sublist is ∧ Chain saved jump (base a) js v ∧ ∀ j ∈ js, live j = true ∧ addr j = a := by
  induction is using List.reverseRecOn generalizing v with
  | nil =>
    rcases hv with hv | ⟨i, hi, _⟩
    · exact ⟨[], .slnil, hv, by simp⟩
    · simp at hi
  | append_singleton is x ih =>
    obtain ⟨his, hx⟩ := grounded_snoc.mp h
    rcases hv with hv | ⟨i, hi, hl, ha, hv⟩
    · exact ⟨[], List.nil_sublist _, hv, by simp⟩
    rcases List.mem_append.mp hi with hi | hi
    · obtain ⟨js, hsub, hc, hjs⟩ := ih his (.inr ⟨i, hi, hl, ha, hv⟩)
      exact ⟨js, hsub.trans (List.sublist_append_left _ _), hc, hjs⟩
    · rw [List.mem_singleton] at hi
      subst hi
      rw [ha] at hx
      obtain ⟨js, hsub, hc, hjs⟩ := ih his hx
      refine ⟨js ++ [i], hsub.append (.refl _), (chain_snoc saved jump).mpr ⟨hc, hv⟩, ?_⟩
      intro j hj
      rcases List.mem_append.mp hj with hj | hj
      · exact hjs j hj
      · rw [List.mem_singleton.mp hj]
        exact ⟨hl, ha⟩

/-! ## Layers by name -/

theorem chain_congr {saved' jump' : ι → α} {b t : α} (h : ∀ i ∈ is, saved' i = saved i ∧ jump' i = jump i) :
    Chain saved' jump' b is t ↔ Chain saved jump b is t := by
  induction is generalizing b with
  | nil => exact Iff.rfl
  | cons i is ih =>
    obtain ⟨hs, hj⟩ := h i (List.mem_cons_self ..)
    rw [chain_cons, chain_cons, hs, hj, ih fun k hk => h k (List.mem_cons_of_mem _ hk)]

/-- Nothing but the jumps of dead layers has changed. -/
theorem Stacked.congr [DecidableEq A] {saved' jump' : ι → α} {addr' : ι → A} {live' : ι → Bool} {mem : A → α}
    (hs : Stacked saved jump addr live base is mem) (h : ∀ i ∈ is, saved' i = saved i ∧ addr' i = addr i ∧
      live' i = live i ∧ (live i = true → jump' i = jump i)) : Stacked saved' jump' addr' live' base is mem := by
  intro a
  have hlayers : layersAt addr' live' is a = layersAt addr live is a := by
    apply List.filter_congr
    intro i hi
    rw [(h i hi).2.1, (h i hi).2.2.1]
  rw [hlayers]
  refine (chain_congr fun i hi => ?_).mpr (hs a)
  obtain ⟨hi, hl, _⟩ := mem_layersAt.mp hi
  exact ⟨(h i hi).1, (h i hi).2.2.2 hl⟩

variable {κ : Type*} (f : κ → ι)

theorem chain_map {b t : α} (ks : List κ) :
    Chain saved jump b (ks.map f) t ↔ Chain (fun k => saved (f k)) (fun k => jump (f k)) b ks t := by
  induction ks generalizing b with
  | nil => exact Iff.rfl
  | cons k ks ih => simp [ih]

theorem layersAt_map [DecidableEq A] (ks : List κ) (a : A) :
    layersAt addr live (ks.map f) a = (layersAt (fun k => addr (f k)) (fun k => live (f k)) ks a).map f := by
  unfold layersAt
  rw [List.filter_map]
  rfl

theorem stacked_map [DecidableEq A] {mem : A → α} (ks : List κ) : Stacked saved jump addr live base (ks.map f) mem ↔
    Stacked (fun k => saved (f k)) (fun k => jump (f k)) (fun k => addr (f k)) (fun k => live (f k)) base ks mem := by
  refine forall_congr' fun a => ?_
  rw [layersAt_map, chain_map]

end

end Overlay
