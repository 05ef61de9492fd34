import Mathlib.SetTheory.Cardinal.Finite
import Mathlib.Data.List.Nodup

/-!
# Walks

Following a function from element to element until a stop is met. In a finite
type a walk that stops visits no element twice, so as many steps as there are
elements decide whether it does.
-/

namespace Walk

variable {α : Type*} (next : α → α) (stop : α → Bool)

/-- The walk from `a` visits `xs` and then stops. -/
inductive Visits : α → List α → Prop
  | stop {a : α} : stop a = true → Visits a []
  | step {a : α} {xs : List α} : stop a = false → Visits (next a) xs → Visits a (a :: xs)

/-- The elements visited before the stop, if it is met in fewer than `n` steps. -/
def walk : Nat → α → Option (List α)
  | 0, _ => none
  | n + 1, a => if stop a then some [] else (walk n (next a)).map (a :: ·)

variable {next stop} {a : α} {xs ys : List α} {n : Nat}

theorem Visits.unique (h₁ : Visits next stop a xs) (h₂ : Visits next stop a ys) : xs = ys := by
  induction h₁ generalizing ys with
  | stop hs =>
    cases h₂ with
    | stop _ => rfl
    | step hs' _ => rw [hs] at hs'; cases hs'
  | step hs _ ih =>
    cases h₂ with
    | stop hs' => rw [hs] at hs'; cases hs'
    | step _ h => rw [ih h]

/-- From each visited element the rest is visited. -/
theorem Visits.suffix (h : Visits next stop a xs) {b : α} (hb : b ∈ xs) :
    ∃ pre post, xs = pre ++ b :: post ∧ Visits next stop b (b :: post) := by
  induction h with
  | stop _ => cases hb
  | @step a xs hs h ih =>
    rcases List.mem_cons.mp hb with rfl | hb
    · exact ⟨[], xs, rfl, .step hs h⟩
    · obtain ⟨pre, post, rfl, hv⟩ := ih hb
      exact ⟨a :: pre, post, rfl, hv⟩

theorem Visits.nodup (h : Visits next stop a xs) : xs.Nodup := by
  induction h with
  | stop _ => exact List.nodup_nil
  | @step a xs hs h ih =>
    refine List.nodup_cons.mpr ⟨fun ha => ?_, ih⟩
    -- a second visit would leave a shorter rest than the first
    obtain ⟨pre, post, e, hv⟩ := h.suffix ha
    have hlen := congrArg List.length ((hv.unique (.step hs h)).trans (congrArg (a :: ·) e))
    simp only [List.length_cons, List.length_append] at hlen
    omega

theorem Visits.length_le_card [Finite α] (h : Visits next stop a xs) : xs.length ≤ Nat.card α := by
  have := Fintype.ofFinite α
  rw [Nat.card_eq_fintype_card]
  exact h.nodup.length_le_card

theorem visits_of_walk (h : walk next stop n a = some xs) : Visits next stop a xs := by
  induction n generalizing a xs with
  | zero => cases h
  | succ n ih =>
    unfold walk at h
    split at h
    case isTrue hs =>
      cases h
      exact .stop hs
    case isFalse hs =>
      obtain ⟨ys, hw, rfl⟩ := Option.map_eq_some_iff.mp h
      exact .step (Bool.eq_false_iff.mpr hs) (ih hw)

theorem Visits.walk_eq (h : Visits next stop a xs) (hn : xs.length < n) : walk next stop n a = some xs := by
  induction h generalizing n with
  | stop hs =>
    cases n with
    | zero => cases hn
    | succ n => exact if_pos hs
  | @step a xs hs _ ih =>
    cases n with
    | zero => cases hn
    | succ n =>
      unfold walk
      rw [if_neg (Bool.eq_false_iff.mp hs), ih (Nat.lt_of_succ_lt_succ hn)]
      rfl

/-- The walk up to the first stop. -/
theorem exists_visits_of_first {k : Nat} (hstay : ∀ i < k, stop (next^[i] a) = false) (h : stop (next^[k] a) = true) :
    ∃ xs, Visits next stop a xs ∧ xs.length = k := by
  induction k generalizing a with
  | zero => exact ⟨[], .stop h, rfl⟩
  | succ k ih =>
    obtain ⟨xs, hv, rfl⟩ := ih (fun i hi => hstay (i + 1) (Nat.succ_lt_succ hi)) h
    exact ⟨a :: xs, .step (hstay 0 (Nat.succ_pos _)) hv, rfl⟩

theorem exists_visits_of_iterate (h : ∃ k, stop (next^[k] a) = true) : ∃ xs, Visits next stop a xs := by
  classical
  obtain ⟨xs, hv, -⟩ := exists_visits_of_first
    (fun i hi => Bool.eq_false_iff.mpr (Nat.find_min h hi)) (Nat.find_spec h)
  exact ⟨xs, hv⟩

theorem Visits.iterate (h : Visits next stop a xs) : stop (next^[xs.length] a) = true := by
  induction h with
  | stop hs => exact hs
  | step _ _ ih => exact ih

/-- **Deciding a walk.** With more steps than there are elements, the walk is decided. -/
theorem walk_isSome_iff [Finite α] (hn : Nat.card α < n) :
    (walk next stop n a).isSome = true ↔ ∃ k, stop (next^[k] a) = true := by
  constructor
  · intro h
    obtain ⟨xs, hw⟩ := Option.isSome_iff_exists.mp h
    exact ⟨xs.length, (visits_of_walk hw).iterate⟩
  · intro h
    obtain ⟨xs, hv⟩ := exists_visits_of_iterate h
    rw [hv.walk_eq (Nat.lt_of_le_of_lt hv.length_le_card hn)]
    rfl

end Walk
