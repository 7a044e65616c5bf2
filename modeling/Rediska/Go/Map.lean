import Mathlib.Data.List.AList
import Mathlib.Algebra.Order.BigOperators.Group.List
import Rediska.Go.Basic

/-! Go maps, and sums over their entries. -/

namespace Rediska.Go

abbrev Map (κ ν : Type) := AList fun _ : κ => ν

variable {κ ν : Type}

/-- The sum of a quantity over all entries. -/
def total (f : κ → ν → Int) (m : Map κ ν) : Int := (m.entries.map fun entry => f entry.1 entry.2).sum

theorem total_one (m : Map κ ν) : total (fun _ _ => 1) m = m.keys.length := by
  simp [total, AList.keys, List.keys]

/-- Bounds of a quantity by another one, entry by entry, are bounds of the sums. -/
theorem total_between {f g : κ → ν → Int} {a b : Int} (each : ∀ k v, g k v ≤ f k v ∧ a * f k v ≤ b * g k v) (m : Map κ ν) :
    total g m ≤ total f m ∧ a * total f m ≤ b * total g m := by
  unfold total
  induction m.entries with
  | nil => exact ⟨Int.le_refl _, by simp⟩
  | cons entry rest ih =>
    have here := each entry.1 entry.2
    simp only [List.map_cons, List.sum_cons, Int.mul_add]
    omega

variable [DecidableEq κ]

private theorem sum_kerase (f : κ → ν → Int) {entries : List (Sigma fun _ : κ => ν)} {k : κ} {v : ν}
    (held : entries.dlookup k = some v) :
    ((entries.kerase k).map fun entry => f entry.1 entry.2).sum =
      (entries.map fun entry => f entry.1 entry.2).sum - f k v := by
  induction entries with
  | nil => cases held
  | cons entry rest ih =>
    obtain ⟨a, b⟩ := entry
    by_cases here : k = a
    · subst here
      rw [List.dlookup_cons_eq] at held
      cases held
      simp [List.kerase_cons_eq]
    · rw [List.dlookup_cons_ne _ _ here] at held
      rw [List.kerase_cons_ne here, List.map_cons, List.sum_cons, ih held, List.map_cons, List.sum_cons]
      omega

theorem total_erase (f : κ → ν → Int) {m : Map κ ν} {k : κ} {v : ν} (held : m.lookup k = some v) :
    total f (m.erase k) = total f m - f k v :=
  sum_kerase f held

theorem le_total {f : κ → ν → Int} (positive : ∀ k v, 0 ≤ f k v) {m : Map κ ν} {k : κ} {v : ν} (held : m.lookup k = some v) :
    f k v ≤ total f m := by
  have others : 0 ≤ total f (m.erase k) := by
    apply List.sum_nonneg
    intro size counted
    obtain ⟨entry, _, rfl⟩ := List.mem_map.mp counted
    exact positive entry.1 entry.2
  rw [total_erase f held] at others
  omega

theorem total_insert_absent (f : κ → ν → Int) {m : Map κ ν} {k : κ} (absent : m.lookup k = none) (v : ν) :
    total f (m.insert k v) = total f m + f k v := by
  rw [total, AList.entries_insert_of_notMem (AList.lookup_eq_none.mp absent), List.map_cons, List.sum_cons]
  exact Int.add_comm _ _

theorem total_insert_present (f : κ → ν → Int) {m : Map κ ν} {k : κ} {old : ν} (held : m.lookup k = some old) (v : ν) :
    total f (m.insert k v) = total f m - f k old + f k v := by
  rw [total, AList.entries_insert, List.map_cons, List.sum_cons, sum_kerase f held]
  exact Int.add_comm _ _

theorem lookup_insert_if (m : Map κ ν) (k j : κ) (v : ν) :
    (m.insert k v).lookup j = if j = k then some v else m.lookup j := by
  split
  next same => subst same; exact AList.lookup_insert m
  next other => exact AList.lookup_insert_ne other

theorem lookup_erase_if (m : Map κ ν) (k j : κ) : (m.erase k).lookup j = if j = k then none else m.lookup j := by
  split
  next same => subst same; exact AList.lookup_erase j m
  next other => exact AList.lookup_erase_ne other

end Rediska.Go
