import Mathlib.Logic.Function.Basic

/-!
# Histories of a patched memory

What is done to a memory on behalf of entries, latest deed first. An entry `put`
under a record stands until it is undone or forgotten; the memory is what the
deeds leave of the one they began with.
-/

namespace History

inductive Deed (ι ρ α β : Type*) where
  /-- `i` is put at `a` under the record `r`, and leaves `w` there. -/
  | put (i : ι) (r : ρ) (a : α) (w : β)
  | undo (i : ι) (a : α) (w : β)
  | forget (i : ι)
  /-- Somebody else changes the memory. -/
  | foreign (m : α → β)

section
variable {ι ρ α β : Type*}

def Deed.about : Deed ι ρ α β → Option ι
  | .put i _ _ _ => some i
  | .undo i _ _ => some i
  | .forget i => some i
  | .foreign _ => none

def replay [DecidableEq α] (m : α → β) : List (Deed ι ρ α β) → α → β
  | [] => m
  | .put _ _ a w :: ds => Function.update (replay m ds) a w
  | .undo _ a w :: ds => Function.update (replay m ds) a w
  | .forget _ :: ds => replay m ds
  | .foreign m' :: _ => m'

/-- The record under which `i` is in memory. -/
def standing [DecidableEq ι] (i : ι) : List (Deed ι ρ α β) → Option ρ
  | [] => none
  | .put j r _ _ :: ds => if j = i then some r else standing i ds
  | .undo j _ _ :: ds => if j = i then none else standing i ds
  | .forget j :: ds => if j = i then none else standing i ds
  | .foreign _ :: ds => standing i ds

/-- A cell that differs has been changed by a deed: by a put or an undo at it, or by somebody else. -/
theorem exists_deed_of_ne [DecidableEq α] {m : α → β} {ds : List (Deed ι ρ α β)} {a : α}
    (h : replay m ds a ≠ m a) : ∃ d below, d :: below <:+ ds ∧ ((∃ i r w, d = .put i r a w) ∨
      (∃ i w, d = .undo i a w) ∨ ∃ m', d = .foreign m' ∧ m' a ≠ replay m below a) := by
  induction ds with
  | nil => exact absurd rfl h
  | cons d ds ih =>
    by_cases hd : replay m (d :: ds) a = replay m ds a
    · rw [hd] at h
      obtain ⟨d', below, hsuf, h'⟩ := ih h
      exact ⟨d', below, hsuf.trans (List.suffix_cons d ds), h'⟩
    refine ⟨d, ds, List.suffix_refl _, ?_⟩
    cases d with
    | put i r b w =>
      have hb : a = b := by
        by_contra hne
        exact hd (Function.update_of_ne hne ..)
      exact .inl ⟨i, r, w, by rw [hb]⟩
    | undo i b w =>
      have hb : a = b := by
        by_contra hne
        exact hd (Function.update_of_ne hne ..)
      exact .inr (.inl ⟨i, w, by rw [hb]⟩)
    | forget i => exact absurd rfl hd
    | foreign m' => exact .inr (.inr ⟨m', rfl, hd⟩)

/-- An entry stands under the record it was put under last. -/
theorem standing_eq_some [DecidableEq ι] {i : ι} {r : ρ} {ds : List (Deed ι ρ α β)}
    (h : standing i ds = some r) : ∃ above a w below,
      ds = above ++ .put i r a w :: below ∧ ∀ d ∈ above, d.about ≠ some i := by
  induction ds with
  | nil => cases h
  | cons d ds ih =>
    by_cases hd : d.about = some i
    · cases d with
      | put j r' a w =>
        cases hd
        simp only [standing, if_true, Option.some.injEq] at h
        exact ⟨[], a, w, ds, by simp [h], by simp⟩
      | undo j a w =>
        cases hd
        simp [standing] at h
      | forget j =>
        cases hd
        simp [standing] at h
      | foreign m => cases hd
    have hrest : standing i ds = some r := by
      cases d with
      | put j r' a w => simpa [standing, show j ≠ i from fun e => hd (e ▸ rfl)] using h
      | undo j a w => simpa [standing, show j ≠ i from fun e => hd (e ▸ rfl)] using h
      | forget j => simpa [standing, show j ≠ i from fun e => hd (e ▸ rfl)] using h
      | foreign m => exact h
    obtain ⟨above, a, w, below, rfl, habove⟩ := ih hrest
    refine ⟨d :: above, a, w, below, rfl, ?_⟩
    intro d' hd'
    rcases List.mem_cons.mp hd' with rfl | hd'
    · exact hd
    · exact habove d' hd'

end

end History
