import Mathlib.Data.List.Perm.Basic
import Mathlib.Data.List.Nodup

/-!
# Accounts of an allocator

The calls an allocator has served, latest first, and the addresses that are
live after them. A log replays if no address is handed out while it is live and
none is freed while it is not.
-/

namespace Ledger

inductive Call (α : Type) where
  | alloc (a : α)
  | free (a : α)
  deriving DecidableEq, Repr

variable {α : Type} [DecidableEq α]

def replay : List (Call α) → Option (List α)
  | [] => some []
  | .alloc a :: cs => (replay cs).bind fun live => if a ∈ live then none else some (a :: live)
  | .free a :: cs => (replay cs).bind fun live => if a ∈ live then some (live.erase a) else none

theorem replay_alloc {cs : List (Call α)} {live : List α} {a : α} (h : replay cs = some live) (ha : a ∉ live) :
    replay (.alloc a :: cs) = some (a :: live) := by
  simp [replay, h, ha]

theorem replay_free {cs : List (Call α)} {live : List α} {a : α} (h : replay cs = some live) (ha : a ∈ live) :
    replay (.free a :: cs) = some (live.erase a) := by
  simp [replay, h, ha]

theorem count_alloc {cs : List (Call α)} {live : List α} (h : replay cs = some live) (a : α) :
    cs.count (.alloc a) = cs.count (.free a) + live.count a := by
  induction cs generalizing live with
  | nil => cases h; rfl
  | cons c cs ih =>
    cases c with
    | alloc b =>
      simp only [replay, Option.bind_eq_some_iff] at h
      obtain ⟨live', hr, h⟩ := h
      have := ih hr
      split at h
      · cases h
      · cases h
        by_cases hab : b = a
        · subst hab
          simp
          omega
        · simp [hab, this]
    | free b =>
      simp only [replay, Option.bind_eq_some_iff] at h
      obtain ⟨live', hr, h⟩ := h
      have := ih hr
      split at h
      · rename_i hb
        cases h
        by_cases hab : b = a
        · subst hab
          have hpos : 0 < live'.count b := List.count_pos_iff.mpr hb
          simp
          omega
        · simp [hab, this, List.count_erase_of_ne (Ne.symm hab)]
      · cases h

/-! ## Blocks with sizes -/

variable {bs rest : List (α × Nat)} {a : α} {n : Nat}

theorem eraseP_perm (hd : (bs.map Prod.fst).Nodup) (hp : bs.Perm ((a, n) :: rest)) :
    (bs.eraseP fun b => b.1 = a).Perm rest := by
  have hne : bs.Pairwise fun x y => x.1 ≠ y.1 := List.pairwise_map.mp hd
  have := hp.eraseP (fun b => decide (b.1 = a)) (hne.imp fun {x y} hxy hx hy => by
    simp only [decide_eq_true_eq] at hx hy
    exact hxy (hx.trans hy.symm))
  rwa [List.eraseP_cons_of_pos (by simp)] at this

theorem map_fst_eraseP (bs : List (α × Nat)) (a : α) :
    (bs.eraseP fun b => b.1 = a).map Prod.fst = (bs.map Prod.fst).erase a := by
  induction bs with
  | nil => rfl
  | cons b bs ih =>
    by_cases hb : b.1 = a
    · simp [hb]
    · rw [List.eraseP_cons_of_neg (by simpa using hb), List.map_cons, List.map_cons, ih,
        List.erase_cons_tail (by simpa using hb)]

end Ledger
