import Mathlib.Data.Finset.Lattice.Fold
import Mathlib.Order.Lattice

/-! Values that only grow, with a flag that tells whether they did. -/

namespace Rediska.Logic

variable {α : Type}

/-- `now` was reached from `start` by joining more in, and `changed` is set exactly
when that made it larger. -/
structure Grown [PartialOrder α] (start now : α) (changed : Bool) : Prop where
  above : start ≤ now
  flag : changed = true ↔ start < now

theorem Grown.refl [PartialOrder α] (start : α) : Grown start start false :=
  ⟨le_refl start, by simp⟩

theorem Grown.trans [PartialOrder α] {start middle now : α} {first second : Bool}
    (before : Grown start middle first) (after : Grown middle now second) : Grown start now (first || second) := by
  refine ⟨before.above.trans after.above, ?_⟩
  rw [Bool.or_eq_true, before.flag, after.flag]
  constructor
  · intro grew
    cases grew with
    | inl early => exact early.trans_le after.above
    | inr late => exact before.above.trans_lt late
  · intro larger
    by_cases early : start < middle
    · exact .inl early
    · have same : start = middle := eq_of_le_of_not_lt before.above early
      exact .inr (same ▸ larger)

/-- Joining one part in is growth exactly when the part was not already below. -/
theorem Grown.join [SemilatticeSup α] (now part : α) {grew : Bool} (flag : grew = true ↔ ¬ part ≤ now) :
    Grown now (now ⊔ part) grew :=
  ⟨le_sup_left, flag.trans left_lt_sup.symm⟩

/-- Joining a list in, one value after the other, depends on its elements alone. -/
theorem foldl_sup_eq [SemilatticeSup α] [OrderBot α] {κ : Type} [DecidableEq κ] (part : κ → α) (start : α) (keys : List κ) :
    keys.foldl (fun now key => now ⊔ part key) start = start ⊔ keys.toFinset.sup part := by
  induction keys generalizing start with
  | nil => simp
  | cons key keys ih => rw [List.foldl_cons, ih, List.toFinset_cons, Finset.sup_insert, sup_assoc]

end Rediska.Logic
