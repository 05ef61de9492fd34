import Mathlib.Logic.Relation

/-!
# Measured systems

A step relation whose steps keep an invariant, do not change what the run will
amount to, and take a measure down. Its runs are finite, and all complete ones
amount to the same.
-/

namespace Measured

variable {α β : Type*}

structure Descends (R : α → α → Prop) (I : α → Prop) (meaning : α → β) (rank : α → Nat) : Prop where
  keeps : ∀ {x y}, I x → R x y → I y
  meaning_eq : ∀ {x y}, I x → R x y → meaning y = meaning x
  rank_lt : ∀ {x y}, I x → R x y → rank y < rank x

variable {R : α → α → Prop} {I : α → Prop} {meaning : α → β} {rank : α → Nat} {x y : α}

theorem Descends.run (h : Descends R I meaning rank) (hx : I x) (hrun : Relation.ReflTransGen R x y) :
    I y ∧ meaning y = meaning x ∧ rank y ≤ rank x := by
  induction hrun with
  | refl => exact ⟨hx, rfl, Nat.le_refl _⟩
  | tail _ step ih =>
    obtain ⟨hi, hm, hr⟩ := ih
    exact ⟨h.keeps hi step, (h.meaning_eq hi step).trans hm, Nat.le_trans (Nat.le_of_lt (h.rank_lt hi step)) hr⟩

/-- Steps one after the other. -/
inductive Steps (R : α → α → Prop) : Nat → α → α → Prop
  | nil (x : α) : Steps R 0 x x
  | cons {n : Nat} {x y z : α} : R x y → Steps R n y z → Steps R (n + 1) x z

theorem Descends.length_le (h : Descends R I meaning rank) {n : Nat} (hx : I x) (hrun : Steps R n x y) :
    n + rank y ≤ rank x := by
  induction hrun with
  | nil => exact Nat.le_of_eq (Nat.zero_add _)
  | cons step _ ih =>
    have := ih (h.keeps hx step)
    have := h.rank_lt hx step
    omega

/-- From every state a state without steps is reached. -/
theorem Descends.finishes (h : Descends R I meaning rank) (hx : I x) :
    ∃ y, Relation.ReflTransGen R x y ∧ ∀ z, ¬ R y z := by
  induction hn : rank x using Nat.strongRecOn generalizing x with
  | ind n ih =>
    by_cases hs : ∃ y, R x y
    · obtain ⟨y, hxy⟩ := hs
      obtain ⟨z, hz, hfinal⟩ := ih (rank y) (hn ▸ h.rank_lt hx hxy) (h.keeps hx hxy) rfl
      exact ⟨z, .head hxy hz, hfinal⟩
    · exact ⟨x, .refl, not_exists.mp hs⟩

end Measured
